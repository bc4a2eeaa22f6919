import Coping.Ping.NiOptions
import Coping.Verification.NiExchange
import Mathlib.Data.List.Perm.Basic

/-!
# What `-N` asks for

An argument is understood as at most one entry of the table: it is the name of the entry, or the
name, an equals sign and more. The arguments are accepted when all of them are understood and
agree, and then the query that is sent asks for just what they say.
-/

namespace Coping.NiOptions

open CFormat

/-! ## The table -/

/-- What the argument begins with: the name, and the equals sign if there is one. -/
def key (p : NiqueryOption) : List UInt8 := p.name ++ if p.hasArg then [0x3d] else []

theorem key_of_matches {p : NiqueryOption} {arg : List UInt8} (h : p.Matches arg) :
    key p <+: arg ∧ (p.hasArg = false → arg = key p) := by
  obtain ⟨⟨rest, rfl⟩, hhead⟩ := h
  rw [List.drop_left] at hhead
  rw [key]
  cases hasArg : p.hasArg with
  | false =>
      rw [hasArg, if_neg Bool.false_ne_true, List.head?_eq_none_iff] at hhead
      rw [hhead, if_neg Bool.false_ne_true]
      exact ⟨List.prefix_refl _, fun _ => rfl⟩
  | true =>
      rw [hasArg, if_pos rfl, List.head?_eq_some_iff] at hhead
      obtain ⟨rest, rfl⟩ := hhead
      rw [if_pos rfl]
      exact ⟨⟨rest, by rw [List.append_assoc, List.singleton_append]⟩, fun h => nomatch h⟩

/-- No key is at the front of another one, except for a name in front of a longer name. -/
theorem key_injective : ∀ p ∈ niqueryOptions, ∀ q ∈ niqueryOptions, key p <+: key q →
    (p.hasArg = false → key q = key p) → p = q := by
  decide +kernel

theorem matches_unique {p q : NiqueryOption} {arg : List UInt8} (hp : p ∈ niqueryOptions)
    (hq : q ∈ niqueryOptions) (mp : p.Matches arg) (mq : q.Matches arg) : p = q := by
  obtain ⟨hpkey, hpwhole⟩ := key_of_matches mp
  obtain ⟨hqkey, hqwhole⟩ := key_of_matches mq
  obtain hle | hle := Nat.le_total (key p).length (key q).length
  · have hprefix := List.prefix_of_prefix_length_le hpkey hqkey hle
    refine key_injective p hp q hq hprefix fun hnone => ?_
    rw [hpwhole hnone] at hqkey
    exact hqkey.eq_of_length_le hle
  · have hprefix := List.prefix_of_prefix_length_le hqkey hpkey hle
    refine (key_injective q hq p hp hprefix fun hnone => ?_).symm
    rw [hqwhole hnone] at hpkey
    exact hpkey.eq_of_length_le hle

/-- How the loop ends behind a handler: none of the entries behind it matches. -/
def settled : Handled → Except NiExit NiState
  | .error exit => .error exit
  | .ok (true, s) => .ok s
  | .ok (false, s) => .error ⟨2, s.said⟩

section Loop

variable {resolver : NiResolver} {s : NiState} {arg : List UInt8} {table : List NiqueryOption}

theorem loop_of_none (none : ∀ p ∈ table, ¬p.Matches arg) (index : Nat) :
    niqueryOptionLoop resolver arg table index s = .error ⟨2, s.said⟩ := by
  induction table generalizing index s with
  | nil => rfl
  | cons p table ih =>
      rw [niqueryOptionLoop, if_neg (none p List.mem_cons_self)]
      exact ih (fun q hq => none q (List.mem_cons_of_mem p hq)) (index + 1)

theorem loop_of_match {p : NiqueryOption} (mem : p ∈ table) (nodup : table.Nodup)
    (matched : p.Matches arg) (unique : ∀ q ∈ table, q.Matches arg → q = p) (index : Nat) :
    ∃ i, niqueryOptionLoop resolver arg table index s =
      settled (p.handler.run resolver s i (arg.drop (p.name.length + 1))) := by
  induction table generalizing index with
  | nil => cases mem
  | cons q table ih =>
      obtain ⟨hnot, hnodup⟩ := List.nodup_cons.mp nodup
      by_cases hq : q.Matches arg
      · obtain rfl := unique q List.mem_cons_self hq
        have hnone : ∀ r ∈ table, ¬r.Matches arg := fun r hr hmatch =>
          hnot (unique r (List.mem_cons_of_mem q hr) hmatch ▸ hr)
        refine ⟨index, ?_⟩
        rw [niqueryOptionLoop, if_pos hq]
        split
        next hrun => rw [hrun, settled]
        next hrun => rw [hrun, settled]
        next hrun => rw [hrun, settled, loop_of_none hnone]
      · have hmem : p ∈ table := (List.mem_cons.mp mem).resolve_left fun h => hq (h ▸ matched)
        rw [niqueryOptionLoop, if_neg hq]
        exact ih hmem hnodup (fun r hr => unique r (List.mem_cons_of_mem q hr)) (index + 1)

end Loop

/-! ## What an argument asks for -/

inductive Wish where
  | query (type flag : UInt16)
  | subject (type : Int) (bytes : List UInt8) (group : Option (List UInt8))

/-- What the resolver and `dn_comp` promise: an address where they find one, and a name that takes
a byte at least. -/
structure Resolves (resolver : NiResolver) : Prop where
  addresses : ∀ type arg, resolver.addresses type arg ≠ .ok []
  dnComp : ∀ name size, resolver.dnComp name size ≠ some []

section Wishes

variable (resolver : NiResolver)

/-- The first address. -/
def addressWish (type : Int) (arg : List UInt8) : Option Wish :=
  (resolver.addresses type arg).toOption.bind fun found =>
    found.head?.map fun bytes => .subject type bytes none

/-- The labels of a name, and one more that is empty if it may not be a whole one. The group is
told by the digest of the first label. -/
noncomputable def canonicalWish (data : Int) (canonname : List UInt8)
    (scope : Option (List UInt8)) : Option Wish :=
  (resolver.dnComp canonname (canonname.length + 4)).bind fun buf =>
    if buf.length < canonname.length + 4 then
      let part := if data = 0 then 0x2e ∉ canonname else data < 0
      some (.subject IPUTILS_NI_ICMP6_SUBJ_FQDN (if part then buf ++ [0] else buf)
        (some (groupText (MessageDigest.digest (buf.take (buf.headD 0).toNat)) scope)))
    else none

/-- The name in lower case, without its scope. -/
noncomputable def nameWish (data : Int) (name : List UInt8) : Option Wish :=
  (resolver.idn name).toOption.bind fun idn =>
    let split := splitScope idn.bytes
    if (split.2.getD []).length < IFNAMSIZ then
      canonicalWish resolver data (split.1.map lowered) split.2
    else none

noncomputable def handlerWish (arg : List UInt8) : NiHandler → Option Wish
  | .name => some (.query IPUTILS_NI_QTYPE_DNSNAME 0)
  | .ipv6 => some (.query IPUTILS_NI_QTYPE_IPV6ADDR 0)
  | .ipv6Flag flag => some (.query IPUTILS_NI_QTYPE_IPV6ADDR flag)
  | .ipv4 => some (.query IPUTILS_NI_QTYPE_IPV4ADDR 0)
  | .ipv4Flag flag => some (.query IPUTILS_NI_QTYPE_IPV4ADDR flag)
  | .subjectAddr type => addressWish resolver type arg
  | .subjectName data => nameWish resolver data arg
  | .help => none

noncomputable def wish (arg : CString) : Option Wish :=
  (niqueryOptions.find? fun p => p.Matches arg.bytes).bind fun p =>
    handlerWish resolver (arg.bytes.drop (p.name.length + 1)) p.handler

end Wishes

/-- The wish agrees with what was asked for before. -/
def Fits (s : NiState) : Wish → Prop
  | .query type _ => niqueryIsEnabled s.ni = true → s.ni.query = type.toNat
  | .subject type _ _ => niqueryIsSubjectValid s.ni = true → s.ni.subjectType = type

instance (s : NiState) : DecidablePred (Fits s)
  | .query _ _ => inferInstanceAs (Decidable (_ → _))
  | .subject _ _ _ => inferInstanceAs (Decidable (_ → _))

def grant (s : NiState) : Wish → NiState
  | .query type flag =>
      { s with ni := { s.ni with query := type.toNat, flag := s.ni.flag ||| flag } }
  | .subject type bytes group =>
      { s with
        ni := { s.ni with subject := bytes, subjectType := type }
        group := group.or s.group }

/-- The wish is granted if it fits. -/
def grantIf (s : NiState) (w : Wish) : Option NiState := if Fits s w then some (grant s w) else none

section Argument

variable {resolver : NiResolver}

theorem setQtype_eq (s : NiState) (type flag : UInt16) :
    niquerySetQtype s type.toNat =
      if Fits s (.query type flag) then
        (true, { s with ni := { s.ni with query := type.toNat } })
      else (false, s.say (ascii "Qtype conflict\n")) := by
  have hfits : Fits s (.query type flag) ↔
      ¬(niqueryIsEnabled s.ni ∧ s.ni.query ≠ type.toNat) := by
    rw [Fits, not_and, not_not]
  rw [niquerySetQtype]
  split
  next h => rw [if_neg (fun hfit => hfits.mp hfit h)]
  next h => rw [if_pos (hfits.mpr h)]

theorem query_eq (s : NiState) (type : UInt16) :
    (settled (.ok (niquerySetQtype s type.toNat))).toOption =
      grantIf s (.query type 0) := by
  rw [setQtype_eq s type 0, grantIf]
  split
  · rw [settled, grant, UInt16.or_zero]
    rfl
  · rfl

theorem flag_eq (s : NiState) (type flag : UInt16) :
    (settled (.ok (niqueryOptionFlagHandler s type flag))).toOption =
      grantIf s (.query type flag) := by
  rw [niqueryOptionFlagHandler, setQtype_eq s type flag, grantIf]
  split
  · rfl
  · rfl

theorem setSubjectType_eq (s : NiState) (type : Int) (bytes : List UInt8)
    (group : Option (List UInt8)) :
    niquerySetSubjectType s type =
      if Fits s (.subject type bytes group) then
        (true, { s with ni := { s.ni with subjectType := type } })
      else (false, s.say (ascii "Subject type conflict\n")) := by
  have hfits : Fits s (.subject type bytes group) ↔
      ¬(niqueryIsSubjectValid s.ni ∧ s.ni.subjectType ≠ type) := by
    rw [Fits, not_and, not_not]
  rw [niquerySetSubjectType]
  split
  next h => rw [if_neg (fun hfit => hfits.mp hfit h)]
  next h => rw [if_pos (hfits.mpr h)]

theorem subject_eq (resolves : Resolves resolver) (s : NiState) (type : Int) (arg : List UInt8) :
    (settled (.ok (niqueryOptionSubjectAddrHandler resolver s type arg))).toOption =
      (addressWish resolver type arg).bind (grantIf s) := by
  rw [niqueryOptionSubjectAddrHandler, addressWish]
  cases hfound : resolver.addresses type arg with
  | error text =>
      dsimp only
      split
      · rfl
      next hset =>
        rw [Bool.not_eq_true] at hset
        rw [← Prod.mk.eta (p := niquerySetSubjectType s type), hset]
        rfl
  | ok found =>
      cases found with
      | nil => exact absurd hfound (resolves.addresses type arg)
      | cons bytes found =>
          rw [setSubjectType_eq s type bytes none]
          change _ = if Fits s (.subject type bytes none) then _ else _
          split
          · rfl
          · rfl

theorem subjectDigest_eq (buf : List UInt8) :
    subjectDigest resolver buf = some (MessageDigest.digest (buf.take (buf.headD 0).toNat)) := by
  rw [subjectDigest, Md5.hashChunks_eq_digest, List.flatMap_singleton]

/-- The sign that tells whether a name may be part of a longer one. -/
theorem part_iff (data : Int) (canonname : List UInt8) :
    (if data = 0 then (if 0x2e ∈ canonname then 1 else -1) else data) < 0 ↔
      if data = 0 then 0x2e ∉ canonname else data < 0 := by
  split
  · split
    next hdot => exact iff_of_false (by decide) (not_not.mpr hdot)
    next hdot => exact iff_of_true (by decide) hdot
  · exact Iff.rfl

theorem canonicalWish_subject {data : Int} {canonname : List UInt8} {scope : Option (List UInt8)}
    {w : Wish} (h : canonicalWish resolver data canonname scope = some w) :
    ∃ bytes group, w = .subject IPUTILS_NI_ICMP6_SUBJ_FQDN bytes group := by
  obtain ⟨buf, -, hbuf⟩ := Option.bind_eq_some_iff.mp h
  obtain ⟨-, hwish⟩ := Option.ite_none_right_eq_some.mp hbuf
  cases hwish
  exact ⟨_, _, rfl⟩

theorem canonical_eq {s : NiState} (data : Int) (canonname : List UInt8)
    (scope : Option (List UInt8))
    (fits : Fits s (.subject IPUTILS_NI_ICMP6_SUBJ_FQDN [] none)) :
    (settled (subjectName resolver
        { s with ni := { s.ni with subjectType := IPUTILS_NI_ICMP6_SUBJ_FQDN } } data canonname
        scope)).toOption =
      (canonicalWish resolver data canonname scope).bind (grantIf s) := by
  rw [subjectName, canonicalWish]
  cases resolver.dnComp canonname (canonname.length + 4) with
  | none => rfl
  | some buf =>
      rw [Option.bind_some]
      dsimp only
      by_cases hlength : buf.length < canonname.length + 4
      · rw [if_neg (Nat.not_le.mpr hlength), if_pos hlength, subjectDigest_eq, Option.bind_some]
        refine Eq.trans ?_ (if_pos fits).symm
        rw [if_congr (part_iff data canonname) rfl rfl]
        rfl
      · rw [if_pos (Nat.not_lt.mp hlength), if_neg hlength]
        rfl

theorem name_eq (s : NiState) (data : Int) (name : List UInt8) :
    (settled (niqueryOptionSubjectNameHandler resolver s data name)).toOption =
      (nameWish resolver data name).bind (grantIf s) := by
  rw [niqueryOptionSubjectNameHandler, setSubjectType_eq s IPUTILS_NI_ICMP6_SUBJ_FQDN [] none,
    nameWish]
  by_cases hfits : Fits s (.subject IPUTILS_NI_ICMP6_SUBJ_FQDN [] none)
  · rw [if_pos hfits]
    dsimp only
    rw [if_pos rfl]
    cases resolver.idn name with
    | error text => rfl
    | ok idn =>
        change _ = Option.bind (if _ then _ else none) _
        by_cases hscope : ((splitScope idn.bytes).2.getD []).length < IFNAMSIZ
        · rw [if_pos hscope, ← canonical_eq data _ _ hfits]
          dsimp only
          rw [if_neg (Nat.not_le.mpr hscope)]
        · rw [if_neg hscope]
          dsimp only
          rw [if_pos (Nat.not_lt.mp hscope)]
          rfl
  · rw [if_neg hfits]
    refine Eq.symm (Option.bind_eq_none_iff.mpr fun w hw => ?_)
    obtain ⟨idn, -, hidn⟩ := Option.bind_eq_some_iff.mp hw
    obtain ⟨-, hcanonical⟩ := Option.ite_none_right_eq_some.mp hidn
    obtain ⟨bytes, group, rfl⟩ := canonicalWish_subject hcanonical
    exact if_neg hfits

theorem run_eq (resolves : Resolves resolver) (s : NiState) (index : Nat) (arg : List UInt8)
    (h : NiHandler) :
    (settled (h.run resolver s index arg)).toOption =
      (handlerWish resolver arg h).bind (grantIf s) := by
  cases h with
  | name => exact query_eq s IPUTILS_NI_QTYPE_DNSNAME
  | ipv6 => exact query_eq s IPUTILS_NI_QTYPE_IPV6ADDR
  | ipv6Flag flag => exact flag_eq s IPUTILS_NI_QTYPE_IPV6ADDR flag
  | ipv4 => exact query_eq s IPUTILS_NI_QTYPE_IPV4ADDR
  | ipv4Flag flag => exact flag_eq s IPUTILS_NI_QTYPE_IPV4ADDR flag
  | subjectAddr type => exact subject_eq resolves s type arg
  | subjectName data => exact name_eq s data arg
  | help => rfl

/-- What an argument asks for is granted if it fits. -/
theorem handler_eq (resolves : Resolves resolver) (s : NiState) (arg : CString) :
    (niqueryOptionHandler resolver s arg).toOption =
      (wish resolver arg).bind (grantIf s) := by
  rw [niqueryOptionHandler, wish]
  cases hfind : niqueryOptions.find? fun p => p.Matches arg.bytes with
  | none =>
      have hnone : ∀ p ∈ niqueryOptions, ¬p.Matches arg.bytes := fun p hp =>
        of_decide_eq_false (Bool.eq_false_iff.mpr (List.find?_eq_none.mp hfind p hp))
      rw [loop_of_none hnone]
      rfl
  | some p =>
      have hmem := List.mem_of_find?_eq_some hfind
      have hmatch : p.Matches arg.bytes :=
        of_decide_eq_true (@List.find?_some _
          (fun p : NiqueryOption => decide (p.Matches arg.bytes)) _ _ hfind)
      obtain ⟨i, hloop⟩ := loop_of_match hmem (by decide +kernel) hmatch
        (fun q hq hmatched => matches_unique hq hmem hmatched hmatch) 0
      rw [hloop, run_eq resolves]
      rfl

end Argument

/-! ## All arguments -/

/-- The type of a query that is asked for. -/
def Wish.qtype : Wish → Option UInt16
  | .query type _ => some type
  | .subject _ _ _ => none

def Wish.flag : Wish → UInt16
  | .query _ flag => flag
  | .subject _ _ _ => 0

/-- The subject that is asked for, with its type. -/
def Wish.subject? : Wish → Option (Int × List UInt8)
  | .query _ _ => none
  | .subject type bytes _ => some (type, bytes)

/-- No two wishes are for different types. -/
structure Agree (ws : List Wish) : Prop where
  queries : ∀ type ∈ ws.filterMap Wish.qtype, ∀ type' ∈ ws.filterMap Wish.qtype, type = type'
  subjects : ∀ v ∈ ws.filterMap Wish.subject?, ∀ v' ∈ ws.filterMap Wish.subject?, v.1 = v'.1

section Arguments

variable {resolver : NiResolver} {ws : List Wish}

theorem query_granted (ws : List Wish) : (ws.foldl grant {}).ni.query =
    ((ws.filterMap Wish.qtype).getLast?).elim (-1) fun type => (type.toNat : Int) := by
  induction ws using List.reverseRecOn with
  | nil => rfl
  | append_singleton ws w ih =>
      rw [List.foldl_append, List.filterMap_append]
      cases w with
      | query type flag => simp [Wish.qtype, grant]
      | subject type bytes group => simpa [Wish.qtype, grant] using ih

theorem subject_granted (ws : List Wish) :
    ((ws.foldl grant {}).ni.subjectType, (ws.foldl grant {}).ni.subject) =
      ((ws.filterMap Wish.subject?).getLast?).getD (-1, []) := by
  induction ws using List.reverseRecOn with
  | nil => rfl
  | append_singleton ws w ih =>
      rw [List.foldl_append, List.filterMap_append]
      cases w with
      | query type flag => simpa [Wish.subject?, grant] using ih
      | subject type bytes group => simp [Wish.subject?, grant]

theorem flag_granted (ws : List Wish) :
    (ws.foldl grant {}).ni.flag = (ws.map Wish.flag).foldl (· ||| ·) 0 := by
  induction ws using List.reverseRecOn with
  | nil => rfl
  | append_singleton ws w ih =>
      rw [List.foldl_append, List.map_append, List.foldl_append]
      cases w with
      | query type flag => simp [Wish.flag, grant, ih]
      | subject type bytes group => simpa [Wish.flag, grant] using ih

/-- All are equal where the ones before are, and the last of these is equal to the new one. -/
theorem all_equal_append {α β : Type} (f : α → β) (l : List α) (x : α) :
    (∀ a ∈ l ++ [x], ∀ b ∈ l ++ [x], f a = f b) ↔
      (∀ a ∈ l, ∀ b ∈ l, f a = f b) ∧ ∀ y ∈ l.getLast?, f y = f x := by
  constructor
  · intro h
    refine ⟨fun a ha b hb => h a (List.mem_append_left _ ha) b (List.mem_append_left _ hb), ?_⟩
    intro y hy
    exact h y (List.mem_append_left _ (List.mem_of_getLast? hy)) x (by simp)
  · rintro ⟨hbefore, hlast⟩
    have hx : ∀ a ∈ l, f a = f x := by
      intro a ha
      obtain ⟨y, hy⟩ := Option.ne_none_iff_exists'.mp
        (mt List.getLast?_eq_none_iff.mp (List.ne_nil_of_mem ha))
      exact (hbefore a ha y (List.mem_of_getLast? hy)).trans (hlast y hy)
    intro a ha b hb
    rw [List.mem_append, List.mem_singleton] at ha hb
    obtain ha | rfl := ha <;> obtain hb | rfl := hb
    · exact hbefore a ha b hb
    · exact hx a ha
    · exact (hx b hb).symm
    · rfl

/-- The subjects are there and of a known type. -/
def Whole (ws : List Wish) : Prop := ∀ v ∈ ws.filterMap Wish.subject?, 0 ≤ v.1 ∧ v.2 ≠ []

theorem agree_append (whole : Whole ws) (w : Wish) :
    Agree (ws ++ [w]) ↔ Agree ws ∧ Fits (ws.foldl grant {}) w := by
  have hquery := query_granted ws
  have hsubject := subject_granted ws
  cases w with
  | query type flag =>
      have hqtypes : (ws ++ [Wish.query type flag]).filterMap Wish.qtype =
          ws.filterMap Wish.qtype ++ [type] := by rw [List.filterMap_append]; rfl
      have hsame : (ws ++ [Wish.query type flag]).filterMap Wish.subject? =
          ws.filterMap Wish.subject? := by rw [List.filterMap_append]; exact List.append_nil _
      have hfits : Fits (ws.foldl grant {}) (.query type flag) ↔
          ∀ y ∈ (ws.filterMap Wish.qtype).getLast?, y = type := by
        rw [Fits, niqueryIsEnabled, hquery]
        cases (ws.filterMap Wish.qtype).getLast? with
        | none => simp
        | some y => simp [UInt16.toNat_inj]
      rw [hfits]
      constructor
      · rintro ⟨hqueries, hsubjects⟩
        rw [hqtypes] at hqueries
        rw [hsame] at hsubjects
        obtain ⟨hbefore, hlast⟩ := (all_equal_append id _ _).mp hqueries
        exact ⟨⟨hbefore, hsubjects⟩, hlast⟩
      · rintro ⟨hagree, hlast⟩
        refine ⟨?_, ?_⟩
        · rw [hqtypes]
          exact (all_equal_append id _ _).mpr ⟨hagree.queries, hlast⟩
        · rw [hsame]
          exact hagree.subjects
  | subject type bytes group =>
      have hsubjects : (ws ++ [Wish.subject type bytes group]).filterMap Wish.subject? =
          ws.filterMap Wish.subject? ++ [(type, bytes)] := by rw [List.filterMap_append]; rfl
      have hsame : (ws ++ [Wish.subject type bytes group]).filterMap Wish.qtype =
          ws.filterMap Wish.qtype := by rw [List.filterMap_append]; exact List.append_nil _
      have hfits : Fits (ws.foldl grant {}) (.subject type bytes group) ↔
          ∀ y ∈ (ws.filterMap Wish.subject?).getLast?, y.1 = type := by
        obtain ⟨htype, hbytes⟩ := Prod.mk.inj hsubject
        rw [Fits, niqueryIsSubjectValid, htype, hbytes]
        cases hlast : (ws.filterMap Wish.subject?).getLast? with
        | none => simp
        | some y =>
            have hy := whole y (List.mem_of_getLast? hlast)
            simp [hy.1, hy.2]
      rw [hfits]
      constructor
      · rintro ⟨hqueries, hall⟩
        rw [hsubjects] at hall
        rw [hsame] at hqueries
        obtain ⟨hbefore, hlast⟩ := (all_equal_append Prod.fst _ _).mp hall
        exact ⟨⟨hqueries, hbefore⟩, hlast⟩
      · rintro ⟨hagree, hlast⟩
        refine ⟨?_, ?_⟩
        · rw [hsame]
          exact hagree.queries
        · rw [hsubjects]
          exact (all_equal_append Prod.fst _ _).mpr ⟨hagree.subjects, hlast⟩

theorem granted_iff (whole : Whole ws) {t : NiState} :
    ws.foldlM grantIf {} = some t ↔ Agree ws ∧ t = ws.foldl grant {} := by
  induction ws using List.reverseRecOn generalizing t with
  | nil =>
      constructor
      · intro h
        cases h
        exact ⟨⟨nofun, nofun⟩, rfl⟩
      · rintro ⟨-, rfl⟩
        rfl
  | append_singleton ws w ih =>
      have hwhole : Whole ws := fun v hv =>
        whole v (by rw [List.filterMap_append]; exact List.mem_append_left _ hv)
      rw [List.foldlM_append, List.foldl_append, agree_append hwhole]
      have hlast : ∀ s, [w].foldlM grantIf s = some t ↔ Fits s w ∧ t = grant s w := by
        intro s
        rw [List.foldlM_cons, grantIf]
        split
        next hfits =>
          exact ⟨fun h => ⟨hfits, (Option.some.inj h).symm⟩, fun h => congrArg some h.2.symm⟩
        next hfits => exact ⟨fun h => (nomatch h), fun h => absurd h.1 hfits⟩
      constructor
      · intro h
        obtain ⟨s, hs, hw⟩ := Option.bind_eq_some_iff.mp h
        obtain ⟨hagree, rfl⟩ := (ih hwhole).mp hs
        obtain ⟨hfits, rfl⟩ := (hlast _).mp hw
        exact ⟨⟨hagree, hfits⟩, rfl⟩
      · rintro ⟨⟨hagree, hfits⟩, rfl⟩
        exact Option.bind_eq_some_iff.mpr
          ⟨_, (ih hwhole).mpr ⟨hagree, rfl⟩, (hlast _).mpr ⟨hfits, rfl⟩⟩

/-- The arguments ask for these, one by one. -/
def Understood (resolver : NiResolver) : List CString → List Wish → Prop :=
  List.Forall₂ fun arg w => wish resolver arg = some w

/-- Granting one after another is understanding all of them and then granting. -/
theorem arguments_eq (resolves : Resolves resolver) {args : List CString} {s t : NiState} :
    niqueryArguments resolver args s = .ok t ↔
      ∃ ws, Understood resolver args ws ∧ ws.foldlM grantIf s = some t := by
  induction args generalizing s with
  | nil =>
      constructor
      · intro h
        cases h
        exact ⟨[], .nil, rfl⟩
      · rintro ⟨ws, hws, hgrant⟩
        cases hws
        cases hgrant
        rfl
  | cons arg args ih =>
      have hfirst := handler_eq resolves s arg
      change (niqueryOptionHandler resolver s arg).bind (niqueryArguments resolver args) = _ ↔ _
      constructor
      · intro h
        cases hhandler : niqueryOptionHandler resolver s arg with
        | error exit =>
            rw [hhandler] at h
            cases h
        | ok next =>
            rw [hhandler] at h hfirst
            obtain ⟨w, hw, hgranted⟩ := Option.bind_eq_some_iff.mp hfirst.symm
            obtain ⟨ws, hws, hrest⟩ := ih.mp h
            refine ⟨w :: ws, .cons hw hws, ?_⟩
            rw [List.foldlM_cons, hgranted]
            exact hrest
      · rintro ⟨ws, hws, hgrant⟩
        cases hws with
        | cons hw hws =>
            rw [List.foldlM_cons] at hgrant
            obtain ⟨next, hnext, hrest⟩ := Option.bind_eq_some_iff.mp hgrant
            rw [hw, Option.bind_some, hnext] at hfirst
            cases hhandler : niqueryOptionHandler resolver s arg with
            | error exit =>
                rw [hhandler] at hfirst
                cases hfirst
            | ok next' =>
                rw [hhandler] at hfirst
                cases hfirst
                exact ih.mpr ⟨_, hws, hrest⟩

theorem canonical_whole (resolves : Resolves resolver) {data : Int} {canonname : List UInt8}
    {scope : Option (List UInt8)} {w : Wish}
    (h : canonicalWish resolver data canonname scope = some w) :
    ∀ v ∈ w.subject?, 0 ≤ v.1 ∧ v.2 ≠ [] := by
  obtain ⟨buf, hbuf, hwish⟩ := Option.bind_eq_some_iff.mp h
  obtain ⟨-, hw⟩ := Option.ite_none_right_eq_some.mp hwish
  cases hw
  rintro v hv
  cases hv
  have hne : buf ≠ [] := fun hempty => resolves.dnComp _ _ (hempty ▸ hbuf)
  have hlabels : ∀ (part : Prop) [Decidable part], (if part then buf ++ [0] else buf) ≠ [] := by
    intro part _
    split
    · exact List.append_ne_nil_of_left_ne_nil hne _
    · exact hne
  exact ⟨(by decide : (0 : Int) ≤ IPUTILS_NI_ICMP6_SUBJ_FQDN), hlabels _⟩

theorem address_ne_nil {type : Int} {arg bytes : List UInt8} {found : List (List UInt8)}
    (h : resolver.addresses type arg = .ok found) (mem : bytes ∈ found) : bytes ≠ [] := by
  have hvector : ∀ {n : Nat} (vs : List (Vector UInt8 (n + 1))), bytes ∈ vs.map Vector.toList →
      bytes ≠ [] := by
    rintro n vs hmem rfl
    obtain ⟨v, -, hv⟩ := List.mem_map.mp hmem
    have hlength := v.length_toList
    rw [hv] at hlength
    cases hlength
  rw [NiResolver.addresses] at h
  split at h
  · cases hsix : resolver.address6 arg with
    | error text =>
        rw [hsix] at h
        cases h
    | ok vs =>
        rw [hsix] at h
        cases h
        exact hvector vs mem
  · cases hfour : resolver.address4 arg with
    | error text =>
        rw [hfour] at h
        cases h
    | ok vs =>
        rw [hfour] at h
        cases h
        exact hvector vs mem

theorem address_whole {type : Int} {arg : List UInt8} {w : Wish} (known : 0 ≤ type)
    (h : addressWish resolver type arg = some w) : ∀ v ∈ w.subject?, 0 ≤ v.1 ∧ v.2 ≠ [] := by
  obtain ⟨found, hfound, hwish⟩ := Option.bind_eq_some_iff.mp h
  obtain ⟨bytes, hbytes, rfl⟩ := Option.map_eq_some_iff.mp hwish
  rintro v hv
  cases hv
  cases haddresses : resolver.addresses type arg with
  | error text =>
      rw [haddresses] at hfound
      cases hfound
  | ok all =>
      rw [haddresses] at hfound
      cases hfound
      exact ⟨known, address_ne_nil haddresses (List.mem_of_head? hbytes)⟩

/-- The type of the addresses that a handler looks for. -/
def addressType : NiHandler → Int
  | .subjectAddr type => type
  | _ => 0

theorem addressType_nonneg : ∀ p ∈ niqueryOptions, 0 ≤ addressType p.handler := by
  decide +kernel

theorem wish_whole (resolves : Resolves resolver) {arg : CString} {w : Wish}
    (h : wish resolver arg = some w) : ∀ v ∈ w.subject?, 0 ≤ v.1 ∧ v.2 ≠ [] := by
  obtain ⟨p, hp, hwish⟩ := Option.bind_eq_some_iff.mp h
  cases hhandler : p.handler with
  | subjectAddr type =>
      rw [hhandler] at hwish
      have hknown := addressType_nonneg p (List.mem_of_find?_eq_some hp)
      rw [hhandler] at hknown
      exact address_whole hknown hwish
  | subjectName data =>
      rw [hhandler] at hwish
      obtain ⟨idn, -, hidn⟩ := Option.bind_eq_some_iff.mp hwish
      exact canonical_whole resolves (Option.ite_none_right_eq_some.mp hidn).2
  | name | ipv6 | ipv6Flag | ipv4 | ipv4Flag =>
      rw [hhandler] at hwish
      cases hwish
      nofun
  | help =>
      rw [hhandler] at hwish
      cases hwish

theorem understood_whole (resolves : Resolves resolver) {args : List CString}
    (h : Understood resolver args ws) : Whole ws := by
  induction h with
  | nil => nofun
  | cons hw _ ih =>
      intro v hv
      obtain ⟨u, hu, hsubject⟩ := List.mem_filterMap.mp hv
      obtain rfl | hmem := List.mem_cons.mp hu
      · exact wish_whole resolves hw v hsubject
      · exact ih v (List.mem_filterMap.mpr ⟨u, hmem, hsubject⟩)

theorem enabled_of_asked {type : UInt16} (asked : type ∈ ws.filterMap Wish.qtype) :
    niqueryIsEnabled (ws.foldl grant {}).ni = true := by
  rw [niqueryIsEnabled, query_granted]
  cases hlast : (ws.filterMap Wish.qtype).getLast? with
  | none =>
      rw [List.getLast?_eq_none_iff] at hlast
      rw [hlast] at asked
      cases asked
  | some type' => exact decide_eq_true (Int.natCast_nonneg _)

/-- What the subject becomes, with its type. -/
theorem niquerySubject_granted (whole : Whole ws) {type : UInt16}
    (asked : type ∈ ws.filterMap Wish.qtype) (whereto6 : List UInt8) :
    ((niquerySubject (ws.foldl grant {}).ni whereto6).subjectType,
        (niquerySubject (ws.foldl grant {}).ni whereto6).subject) =
      ((ws.filterMap Wish.subject?).getLast?).getD (IPUTILS_NI_ICMP6_SUBJ_IPV6, whereto6) := by
  have hsubject := subject_granted ws
  have henabled := enabled_of_asked asked
  rw [niquerySubject, henabled]
  cases hlast : (ws.filterMap Wish.subject?).getLast? with
  | none =>
      rw [hlast] at hsubject
      obtain ⟨htype, -⟩ := Prod.mk.inj hsubject
      have hinvalid : niqueryIsSubjectValid (ws.foldl grant {}).ni = false := by
        rw [niqueryIsSubjectValid, htype]
        rfl
      rw [if_pos ⟨rfl, ne_true_of_eq_false hinvalid⟩]
      rfl
  | some y =>
      rw [hlast] at hsubject
      obtain ⟨htype, hbytes⟩ := Prod.mk.inj hsubject
      have hy := whole y (List.mem_of_getLast? hlast)
      have hvalid : niqueryIsSubjectValid (ws.foldl grant {}).ni = true := by
        rw [niqueryIsSubjectValid, htype, hbytes]
        exact (Bool.and_eq_true _ _).mpr ⟨decide_eq_true hy.1, decide_eq_true hy.2⟩
      rw [if_neg fun h => h.2 hvalid]
      exact hsubject

/-- Where all are equal, the last one is the same in any order. -/
theorem last_of_perm {α β : Type} (f : α → β) {l l' : List α} (perm : l.Perm l')
    (same : ∀ a ∈ l, ∀ b ∈ l, f a = f b) : l'.getLast?.map f = l.getLast?.map f := by
  cases hlast : l.getLast? with
  | none =>
      rw [List.getLast?_eq_none_iff] at hlast
      subst hlast
      rw [← perm.nil_eq]
      rfl
  | some a =>
      have ha := List.mem_of_getLast? hlast
      cases hlast' : l'.getLast? with
      | none =>
          rw [List.getLast?_eq_none_iff] at hlast'
          subst hlast'
          cases perm.mem_iff.mp ha
      | some b =>
          have hb := perm.mem_iff.mpr (List.mem_of_getLast? hlast')
          exact congrArg some (same b hb a ha)

theorem Agree.perm {ws' : List Wish} (h : Agree ws) (perm : ws.Perm ws') : Agree ws' where
  queries type htype type' htype' :=
    h.queries type ((perm.filterMap _).mem_iff.mpr htype) type'
      ((perm.filterMap _).mem_iff.mpr htype')
  subjects v hv v' hv' :=
    h.subjects v ((perm.filterMap _).mem_iff.mpr hv) v' ((perm.filterMap _).mem_iff.mpr hv')

/-- The query, its flags and the type of its subject. -/
theorem granted_perm {ws' : List Wish} (agree : Agree ws) (perm : ws.Perm ws') :
    (ws'.foldl grant {}).ni.query = (ws.foldl grant {}).ni.query ∧
      (ws'.foldl grant {}).ni.flag = (ws.foldl grant {}).ni.flag ∧
      (ws'.foldl grant {}).ni.subjectType = (ws.foldl grant {}).ni.subjectType := by
  refine ⟨?_, ?_, ?_⟩
  · have hlast := last_of_perm id (perm.filterMap Wish.qtype) agree.queries
    rw [Option.map_id] at hlast
    rw [query_granted, query_granted]
    exact congrArg (Option.elim · (-1) fun type : UInt16 => (type.toNat : Int)) hlast
  · rw [flag_granted, flag_granted]
    refine ((perm.map Wish.flag).foldl_eq' ?_ 0).symm
    intro x _ y _ z
    rw [UInt16.or_assoc, UInt16.or_comm x y, UInt16.or_assoc]
  · have hlast := last_of_perm Prod.fst (perm.filterMap Wish.subject?) agree.subjects
    have htype : ∀ vs : List Wish, (vs.foldl grant {}).ni.subjectType =
        ((vs.filterMap Wish.subject?).getLast?.map Prod.fst).getD (-1) := by
      intro vs
      have hsubject := congrArg Prod.fst (subject_granted vs)
      cases hv : (vs.filterMap Wish.subject?).getLast? with
      | none =>
          rw [hv] at hsubject
          exact hsubject
      | some v =>
          rw [hv] at hsubject
          exact hsubject
    rw [htype, htype, hlast]

theorem ofInt_toNat (v : UInt16) : UInt16.ofInt (v.toNat : Int) = v := by
  have hlt := v.toNat_lt
  have hmod : (v.toNat : Int) % 2 ^ 16 = v.toNat := by omega
  rw [UInt16.ofInt, hmod, Int.toNat_natCast, UInt16.ofNat_toNat]

/-- The bytes of a query. -/
theorem query_bytes {rts : PingRts} (enabled : niqueryIsEnabled rts.ni = true)
    (fits : 16 + rts.ni.subject.length ≤ MAXPACKET) (now : Timeval) :
    (ping6SendProbe rts now).2 =
      [IPUTILS_NI_ICMP6_QUERY, UInt8.ofInt rts.ni.subjectType] ++ le16 0 ++
        be16 (UInt16.ofInt rts.ni.query) ++ le16 rts.ni.flag ++
        niqueryFillNonce rts.ni (low16 (rts.ntransmitted + 1)) ++ rts.ni.subject := by
  obtain ⟨bytes, hbytes, hlength⟩ : ∃ bytes, bytes =
      [IPUTILS_NI_ICMP6_QUERY, UInt8.ofInt rts.ni.subjectType] ++ le16 0 ++
        be16 (UInt16.ofInt rts.ni.query) ++ le16 rts.ni.flag ++
        niqueryFillNonce rts.ni (low16 (rts.ntransmitted + 1)) ++ rts.ni.subject ∧
      bytes.length = 16 + rts.ni.subject.length := by
    refine ⟨_, rfl, ?_⟩
    rw [List.length_append, List.length_append, length_niqueryFillNonce]
    rfl
  have hpacket : (ping6SendProbe rts now).2 =
      ProbeBytes.slice (rts.outpack.write 0 bytes) 0 (16 + rts.ni.subject.length) := by
    rw [hbytes, ping6SendProbe, if_pos enabled]
    rfl
  rw [← hbytes, hpacket, ProbeBytes.slice_write_inside (Nat.le_refl 0) (by omega) (by omega),
    List.drop_zero, ← hlength, List.take_length]

theorem understood_unique {args : List CString} {ws ws' : List Wish}
    (h : Understood resolver args ws) (h' : Understood resolver args ws') : ws = ws' := by
  induction h generalizing ws' with
  | nil =>
      cases h'
      rfl
  | cons hw _ ih =>
      cases h' with
      | cons hw' hws' =>
          obtain rfl := Option.some.inj (hw.symm.trans hw')
          rw [ih hws']

theorem query_of_asked {type : UInt16} (agree : Agree ws) (asked : type ∈ ws.filterMap Wish.qtype) :
    (ws.foldl grant {}).ni.query = type.toNat := by
  rw [query_granted]
  cases hlast : (ws.filterMap Wish.qtype).getLast? with
  | none =>
      rw [List.getLast?_eq_none_iff] at hlast
      rw [hlast] at asked
      cases asked
  | some type' =>
      rw [agree.queries type asked type' (List.mem_of_getLast? hlast)]
      rfl

theorem niquerySubject_query (ni : PingNi) (whereto6 : List UInt8) :
    (niquerySubject ni whereto6).query = ni.query := by
  rw [niquerySubject]
  split <;> rfl

theorem niquerySubject_flag (ni : PingNi) (whereto6 : List UInt8) :
    (niquerySubject ni whereto6).flag = ni.flag := by
  rw [niquerySubject]
  split <;> rfl

/-! ## The text of the group -/

theorem length_byte : ∀ n < 256, (based 16 2 n).length = 2 := by
  decide +kernel

/-- `sprintf` writes no more than the buffer of the group can take. -/
theorem groupText_fits (digest : List UInt8) {scope : Option (List UInt8)}
    (short : (scope.getD []).length < IFNAMSIZ) :
    (groupText digest scope).length < NIGROUP_MAX := by
  have hbyte (i : Nat) : (based 16 2 (digest.getD i 0).toNat).length = 2 :=
    length_byte _ (digest.getD i 0).toNat_lt
  have hfront : (ascii "ff02::2:").length = 8 := by decide +kernel
  have hcolon : (ascii ":").length = 1 := by decide +kernel
  have hshort : (scope.getD []).length < 16 := short
  change _ < 63
  cases scope with
  | none =>
      simp only [groupText, List.length_append, hbyte, hfront, hcolon, List.length_nil]
      omega
  | some scope =>
      rw [Option.getD_some] at hshort
      simp only [groupText, List.length_append, hbyte, hfront, hcolon, List.length_cons]
      omega

def Wish.group : Wish → Option (List UInt8)
  | .query _ _ => none
  | .subject _ _ group => group

theorem wish_group {arg : CString} {w : Wish} (h : wish resolver arg = some w) :
    ∀ text ∈ w.group, text.length < NIGROUP_MAX := by
  obtain ⟨p, -, hwish⟩ := Option.bind_eq_some_iff.mp h
  cases hhandler : p.handler with
  | subjectName data =>
      rw [hhandler] at hwish
      obtain ⟨idn, -, hidn⟩ := Option.bind_eq_some_iff.mp hwish
      obtain ⟨hscope, hcanonical⟩ := Option.ite_none_right_eq_some.mp hidn
      obtain ⟨buf, -, hbuf⟩ := Option.bind_eq_some_iff.mp hcanonical
      obtain ⟨-, hw⟩ := Option.ite_none_right_eq_some.mp hbuf
      cases hw
      rintro text htext
      cases htext
      exact groupText_fits _ hscope
  | subjectAddr type =>
      rw [hhandler] at hwish
      obtain ⟨found, -, hfound⟩ := Option.bind_eq_some_iff.mp hwish
      obtain ⟨bytes, -, rfl⟩ := Option.map_eq_some_iff.mp hfound
      nofun
  | name | ipv6 | ipv6Flag | ipv4 | ipv4Flag =>
      rw [hhandler] at hwish
      cases hwish
      nofun
  | help =>
      rw [hhandler] at hwish
      cases hwish

theorem group_granted (whole : ∀ w ∈ ws, ∀ text ∈ w.group, text.length < NIGROUP_MAX) :
    ∀ text ∈ (ws.foldl grant {}).group, text.length < NIGROUP_MAX := by
  induction ws using List.reverseRecOn with
  | nil => nofun
  | append_singleton ws w ih =>
      have hbefore := ih fun v hv => whole v (List.mem_append_left _ hv)
      have hlast := whole w (List.mem_append_right _ List.mem_cons_self)
      rw [List.foldl_append]
      cases w with
      | query type flag => exact hbefore
      | subject type bytes group =>
          intro text htext
          obtain hnew | ⟨-, hold⟩ := Option.or_eq_some_iff.mp htext
          · exact hlast text hnew
          · exact hbefore text hold

theorem understood_group {args : List CString} (h : Understood resolver args ws) :
    ∀ w ∈ ws, ∀ text ∈ w.group, text.length < NIGROUP_MAX := by
  induction h with
  | nil => nofun
  | cons hw _ ih => exact List.forall_mem_cons.mpr ⟨wish_group hw, ih⟩

end Arguments

section Results

variable {resolver : NiResolver} (resolves : Resolves resolver)

include resolves

theorem accepted_iff (args : List CString) (t : NiState) :
    niqueryArguments resolver args {} = .ok t ↔
      ∃ ws, Understood resolver args ws ∧ Agree ws ∧ t = ws.foldl grant {} := by
  rw [arguments_eq resolves]
  constructor
  · rintro ⟨ws, hws, hgrant⟩
    exact ⟨ws, hws, (granted_iff (understood_whole resolves hws)).mp hgrant⟩
  · rintro ⟨ws, hws, hgranted⟩
    exact ⟨ws, hws, (granted_iff (understood_whole resolves hws)).mpr hgranted⟩

/-- The arguments are accepted when each of them is understood and no two of them disagree. Then
the query has the type and all the flags that they ask for, and the last subject that they give, or
else the destination. -/
theorem query_asks (args : List CString) :
    ((∃ t, niqueryArguments resolver args {} = .ok t) ↔
      ∃ ws, Understood resolver args ws ∧ Agree ws) ∧
    ∀ (ws : List Wish) (t : NiState) (type : UInt16) (rts : PingRts) (whereto6 : List UInt8)
      (digest : UInt16 → Vector UInt8 6) (now : Timeval),
      Understood resolver args ws → niqueryArguments resolver args {} = .ok t →
      type ∈ ws.filterMap Wish.qtype →
      rts.ni = { niquerySubject t.ni whereto6 with digest := digest } →
      16 + rts.ni.subject.length ≤ MAXPACKET →
      let subject :=
        ((ws.filterMap Wish.subject?).getLast?).getD (IPUTILS_NI_ICMP6_SUBJ_IPV6, whereto6)
      (ping6SendProbe rts now).2 =
        [IPUTILS_NI_ICMP6_QUERY, UInt8.ofInt subject.1] ++ le16 0 ++ be16 type ++
          le16 ((ws.map Wish.flag).foldl (· ||| ·) 0) ++
          niqueryFillNonce rts.ni (low16 (rts.ntransmitted + 1)) ++ subject.2 := by
  constructor
  · constructor
    · rintro ⟨t, ht⟩
      obtain ⟨ws, hws, hagree, -⟩ := (accepted_iff resolves args t).mp ht
      exact ⟨ws, hws, hagree⟩
    · rintro ⟨ws, hws, hagree⟩
      exact ⟨_, (accepted_iff resolves args _).mpr ⟨ws, hws, hagree, rfl⟩⟩
  · intro ws t type rts whereto6 digest now hws ht asked hni fits
    obtain ⟨ws', hws', hagree, rfl⟩ := (accepted_iff resolves args t).mp ht
    obtain rfl := understood_unique hws hws'
    have hsubject := niquerySubject_granted (understood_whole resolves hws) asked whereto6
    intro subject
    have hquery : rts.ni.query = type.toNat := by
      rw [hni]
      exact (niquerySubject_query _ whereto6).trans (query_of_asked hagree asked)
    have hflag : rts.ni.flag = (ws.map Wish.flag).foldl (· ||| ·) 0 := by
      rw [hni]
      exact (niquerySubject_flag _ whereto6).trans (flag_granted ws)
    have henabled : niqueryIsEnabled rts.ni = true := by
      rw [niqueryIsEnabled, hquery]
      exact decide_eq_true (Int.natCast_nonneg _)
    have htype : rts.ni.subjectType = subject.1 := by
      rw [hni]
      exact congrArg Prod.fst hsubject
    have hbytes : rts.ni.subject = subject.2 := by
      rw [hni]
      exact congrArg Prod.snd hsubject
    rw [query_bytes henabled fits, hquery, hflag, htype, hbytes, ofInt_toNat]

/-- The order of the arguments tells only which of several subjects is asked about. -/
theorem order_irrelevant {args args' : List CString} {t : NiState} (perm : args.Perm args')
    (accepted : niqueryArguments resolver args {} = .ok t) :
    ∃ t', niqueryArguments resolver args' {} = .ok t' ∧ t'.ni.query = t.ni.query ∧
      t'.ni.flag = t.ni.flag ∧ t'.ni.subjectType = t.ni.subjectType := by
  obtain ⟨ws, hws, hagree, rfl⟩ := (accepted_iff resolves args t).mp accepted
  obtain ⟨ws', hws', hperm⟩ := List.perm_comp_forall₂ perm.symm hws
  exact ⟨_, (accepted_iff resolves args' _).mpr
    ⟨ws', hws', hagree.perm hperm.symm, rfl⟩, granted_perm hagree hperm.symm⟩

/-- The static buffer of the group is large enough. -/
theorem arguments_group {args : List CString} {t : NiState}
    (accepted : niqueryArguments resolver args {} = .ok t) :
    ∀ text ∈ t.group, text.length < NIGROUP_MAX := by
  obtain ⟨ws, hws, -, rfl⟩ := (accepted_iff resolves args t).mp accepted
  exact group_granted (understood_group hws)

end Results

/-! ## Two flags -/

/-- A resolver that finds nothing. -/
def noResolver : NiResolver where
  address6 _ := .error []
  address4 _ := .error []
  idn _ := .error []
  dnComp _ _ := none
  stack := NiExchange.zeroInput

theorem noResolver_resolves : Resolves noResolver where
  addresses type arg h := by
    rw [NiResolver.addresses] at h
    split at h <;> cases h
  dnComp _ _ h := nomatch h

def flagArguments : List CString :=
  [⟨ascii "ipv6-global", by decide +kernel⟩, ⟨ascii "ipv6-linklocal", by decide +kernel⟩]

def flagWishes : List Wish :=
  [.query 3 IPUTILS_NI_IPV6_FLAG_GLOBAL, .query 3 IPUTILS_NI_IPV6_FLAG_LINKLOCAL]

def flagState : NiState := flagWishes.foldl grant {}

theorem flagArguments_understood : Understood noResolver flagArguments flagWishes := by
  have hglobal : niqueryOptions.find? (fun p => p.Matches (ascii "ipv6-global")) =
      some ⟨ascii "ipv6-global", false, .ipv6Flag IPUTILS_NI_IPV6_FLAG_GLOBAL⟩ := by
    decide +kernel
  have hlink : niqueryOptions.find? (fun p => p.Matches (ascii "ipv6-linklocal")) =
      some ⟨ascii "ipv6-linklocal", false, .ipv6Flag IPUTILS_NI_IPV6_FLAG_LINKLOCAL⟩ := by
    decide +kernel
  refine .cons ?_ (.cons ?_ .nil)
  · rw [wish, hglobal]
    rfl
  · rw [wish, hlink]
    rfl

theorem flagArguments_agree : Agree flagWishes where
  queries := by
    have hsame : ∀ type ∈ flagWishes.filterMap Wish.qtype, type = 3 := by
      simp [flagWishes, Wish.qtype]
    exact fun type h type' h' => (hsame type h).trans (hsame type' h').symm
  subjects := nofun

theorem flagArguments_accepted : niqueryArguments noResolver flagArguments {} = .ok flagState :=
  (accepted_iff noResolver_resolves flagArguments flagState).mpr
    ⟨flagWishes, flagArguments_understood, flagArguments_agree, rfl⟩

def flagQuery : PingRts where
  ni := { niquerySubject flagState.ni (List.replicate 16 0) with
    digest := fun _ => Vector.replicate 6 0 }

theorem query_asks_flags :
    (ping6SendProbe flagQuery {}).2 =
      [IPUTILS_NI_ICMP6_QUERY, 0] ++ le16 0 ++ be16 3 ++
        le16 (IPUTILS_NI_IPV6_FLAG_GLOBAL ||| IPUTILS_NI_IPV6_FLAG_LINKLOCAL) ++
        niqueryFillNonce flagQuery.ni (low16 1) ++ List.replicate 16 0 :=
  (query_asks noResolver_resolves flagArguments).2 flagWishes flagState 3 flagQuery
    (List.replicate 16 0) (fun _ => Vector.replicate 6 0) {} flagArguments_understood
    flagArguments_accepted List.mem_cons_self rfl (by decide)

theorem order_irrelevant_flags :
    ∃ t, niqueryArguments noResolver flagArguments.reverse {} = .ok t ∧
      t.ni.query = flagState.ni.query ∧ t.ni.flag = flagState.ni.flag ∧
      t.ni.subjectType = flagState.ni.subjectType :=
  order_irrelevant noResolver_resolves (List.reverse_perm flagArguments).symm
    flagArguments_accepted

end Coping.NiOptions
