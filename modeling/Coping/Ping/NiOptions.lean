import Coping.Ping.Lines
import Coping.Ping.Md5

/-!
# Options of node information queries

`niquery_option_handler` of `node_info.c` with its table and the handlers in it: the argument of
`-N`. The resolver, the encoding of international names and `dn_comp` are parameters, memory is
there, and the text of the help is left out. A little-endian host is taken for the flags.
-/

namespace Coping

open CFormat

def IPUTILS_NI_ICMP6_SUBJ_IPV6 : Int := 0

def IPUTILS_NI_ICMP6_SUBJ_FQDN : Int := 1

def IPUTILS_NI_IPV6_FLAG_ALL : UInt16 := ntohs 0x0002

def IPUTILS_NI_IPV6_FLAG_COMPAT : UInt16 := ntohs 0x0004

def IPUTILS_NI_IPV6_FLAG_LINKLOCAL : UInt16 := ntohs 0x0008

def IPUTILS_NI_IPV6_FLAG_SITELOCAL : UInt16 := ntohs 0x0010

def IPUTILS_NI_IPV6_FLAG_GLOBAL : UInt16 := ntohs 0x0020

def IPUTILS_NI_IPV4_FLAG_ALL : UInt16 := IPUTILS_NI_IPV6_FLAG_ALL

def SCOPE_DELIMITER : UInt8 := 0x25

def IFNAMSIZ : Nat := 16

/-- The size of `nigroup_buf`. -/
def NIGROUP_MAX : Nat := 46 + 1 + IFNAMSIZ

/-- What the handlers call. Where a call fails, the text is the one of its error. -/
structure NiResolver where
  /-- `getaddrinfo` with the family as its hint: the bytes of the addresses. -/
  address6 : List UInt8 → Except (List UInt8) (List (Vector UInt8 16))
  address4 : List UInt8 → Except (List UInt8) (List (Vector UInt8 4))
  /-- `idn2_lookup_ul`, or `strdup`. -/
  idn : List UInt8 → Except (List UInt8) CString
  /-- `dn_comp` into that many bytes. A label has 63 bytes at most: its length is no negative
  `char`. -/
  dnComp : List UInt8 → Nat → Option (List UInt8)
  /-- The input of the digest before it is written. -/
  stack : CBuffer 64

/-- The fields of `struct ping_ni` that the options set. A subject that is not there is empty. -/
structure NiState where
  ni : PingNi := {}
  group : Option (List UInt8) := none
  /-- What the handlers have said. -/
  said : List (List UInt8) := []

/-- The end of the program: its status, and what was said before. -/
structure NiExit where
  status : Nat
  said : List (List UInt8)

/-- What a handler leaves, and whether it succeeds. -/
abbrev Handled := Except NiExit (Bool × NiState)

def NiState.say (s : NiState) (text : List UInt8) : NiState := { s with said := s.said ++ [text] }

/-- `error` with a status. -/
def NiState.fail (s : NiState) (text : List UInt8) : Handled := .error ⟨2, s.said ++ [text]⟩

def niquerySetQtype (s : NiState) (type : Int) : Bool × NiState :=
  if niqueryIsEnabled s.ni ∧ s.ni.query ≠ type then (false, s.say (ascii "Qtype conflict\n"))
  else (true, { s with ni := { s.ni with query := type } })

/-- The handlers of addresses: their type, and a flag if there is one. -/
def niqueryOptionFlagHandler (s : NiState) (type : UInt16) (data : UInt16) : Bool × NiState :=
  let set := niquerySetQtype s type.toNat
  if set.1 then (true, { set.2 with ni := { set.2.ni with flag := set.2.ni.flag ||| data } })
  else set

def niqueryOptionNameHandler (s : NiState) : Bool × NiState :=
  niquerySetQtype s IPUTILS_NI_QTYPE_DNSNAME.toNat

def niqueryOptionIpv6Handler (s : NiState) : Bool × NiState :=
  niquerySetQtype s IPUTILS_NI_QTYPE_IPV6ADDR.toNat

def niqueryOptionIpv6FlagHandler (s : NiState) (data : UInt16) : Bool × NiState :=
  niqueryOptionFlagHandler s IPUTILS_NI_QTYPE_IPV6ADDR data

def niqueryOptionIpv4Handler (s : NiState) : Bool × NiState :=
  niquerySetQtype s IPUTILS_NI_QTYPE_IPV4ADDR.toNat

def niqueryOptionIpv4FlagHandler (s : NiState) (data : UInt16) : Bool × NiState :=
  niqueryOptionFlagHandler s IPUTILS_NI_QTYPE_IPV4ADDR data

def niqueryIsSubjectValid (ni : PingNi) : Bool := ni.subjectType ≥ 0 && ni.subject ≠ []

def niquerySetSubjectType (s : NiState) (type : Int) : Bool × NiState :=
  if niqueryIsSubjectValid s.ni ∧ s.ni.subjectType ≠ type then
    (false, s.say (ascii "Subject type conflict\n"))
  else (true, { s with ni := { s.ni with subjectType := type } })

/-- The addresses of the type, as `subject_len` bytes from `offset` on. -/
def NiResolver.addresses (resolver : NiResolver) (type : Int) (arg : List UInt8) :
    Except (List UInt8) (List (List UInt8)) :=
  if type = IPUTILS_NI_ICMP6_SUBJ_IPV6 then
    (resolver.address6 arg).map fun found => found.map Vector.toList
  else (resolver.address4 arg).map fun found => found.map Vector.toList

/-- The first of the addresses becomes the subject. -/
def niqueryOptionSubjectAddrHandler (resolver : NiResolver) (s : NiState) (type : Int)
    (arg : List UInt8) : Bool × NiState :=
  let set := niquerySetSubjectType s type
  if set.1 then
    match resolver.addresses type arg with
    | .error text => (false, set.2.say (arg ++ ascii ": " ++ text))
    | .ok [] => set
    | .ok (address :: _) => (true, { set.2 with ni := { set.2.ni with subject := address } })
  else set

/-- `tolower` of what `isupper` accepts. -/
def lowered (c : UInt8) : UInt8 := if 0x41 ≤ c ∧ c ≤ 0x5a then c + 0x20 else c

/-- The digest of the first `buf[0]` bytes of `buf`. -/
def subjectDigest (resolver : NiResolver) (buf : List UInt8) : Option (List UInt8) :=
  Md5.hashChunks .little resolver.stack
    [⟨buf.take (buf.headD 0).toNat, by
      have := (buf.headD 0).toNat_lt
      rw [List.length_take]
      omega⟩]

/-- The address of the group, with the scope behind it. -/
def groupText (digest : List UInt8) (scope : Option (List UInt8)) : List UInt8 :=
  let byte (i : Nat) := based 16 2 (digest.getD i 0).toNat
  ascii "ff02::2:" ++ byte 0 ++ byte 1 ++ ascii ":" ++ byte 2 ++ byte 3 ++
    match scope with
    | none => []
    | some scope => SCOPE_DELIMITER :: scope

/-- What is in front of the delimiter, and what is behind it. -/
def splitScope (idn : List UInt8) : List UInt8 × Option (List UInt8) :=
  (idn.takeWhile (· ≠ SCOPE_DELIMITER),
    if SCOPE_DELIMITER ∈ idn then some ((idn.dropWhile (· ≠ SCOPE_DELIMITER)).drop 1) else none)

/-- A name in its canonical form, `fqdn` telling whether it is taken as a whole one. -/
def subjectName (resolver : NiResolver) (s : NiState) (fqdn : Int) (canonname : List UInt8)
    (scope : Option (List UInt8)) : Handled :=
  let fqdn := if fqdn = 0 then (if 0x2e ∈ canonname then 1 else -1) else fqdn
  let buflen := canonname.length + 3 + 1
  match resolver.dnComp canonname buflen with
  | none => s.fail (ascii "inappropriate subject name: " ++ canonname)
  | some buf =>
      if buf.length ≥ buflen then s.fail (ascii "dn_comp() returned too long result")
      else
        match subjectDigest resolver buf with
        | none => s.fail []
        | some digest =>
            .ok (true,
              { s with
                ni := { s.ni with subject := if fqdn < 0 then buf ++ [0] else buf }
                group := some (groupText digest scope) })

def niqueryOptionSubjectNameHandler (resolver : NiResolver) (s : NiState) (data : Int)
    (name : List UInt8) : Handled :=
  let set := niquerySetSubjectType s IPUTILS_NI_ICMP6_SUBJ_FQDN
  if set.1 then
    match resolver.idn name with
    | .error text => set.2.fail (ascii "IDN encoding error: " ++ text)
    | .ok idn =>
        let split := splitScope idn.bytes
        if (split.2.getD []).length ≥ IFNAMSIZ then set.2.fail (ascii "too long scope name")
        else subjectName resolver set.2 data (split.1.map lowered) split.2
  else .ok set

/-- The help is asked for, or there is nothing else to say. -/
def niqueryOptionHelpHandler (s : NiState) (index : Nat) : Handled :=
  .error ⟨if index ≠ 0 then 0 else 2, s.said⟩

inductive NiHandler where
  | name
  | ipv6
  | ipv6Flag (data : UInt16)
  | ipv4
  | ipv4Flag (data : UInt16)
  | subjectAddr (data : Int)
  | subjectName (data : Int)
  | help
  deriving DecidableEq

structure NiqueryOption where
  name : List UInt8
  hasArg : Bool
  handler : NiHandler
  deriving DecidableEq

/-- The argument begins with the name. Behind it there is an equals sign if the entry has an
argument, and else nothing. -/
def NiqueryOption.Matches (p : NiqueryOption) (optArg : List UInt8) : Prop :=
  p.name <+: optArg ∧
    (optArg.drop p.name.length).head? = if p.hasArg then some 0x3d else none

instance (p : NiqueryOption) (optArg : List UInt8) : Decidable (p.Matches optArg) :=
  inferInstanceAs (Decidable (_ ∧ _))

def niqueryOptions : List NiqueryOption :=
  [⟨ascii "name", false, .name⟩,
    ⟨ascii "fqdn", false, .name⟩,
    ⟨ascii "ipv6", false, .ipv6⟩,
    ⟨ascii "ipv6-all", false, .ipv6Flag IPUTILS_NI_IPV6_FLAG_ALL⟩,
    ⟨ascii "ipv6-compatible", false, .ipv6Flag IPUTILS_NI_IPV6_FLAG_COMPAT⟩,
    ⟨ascii "ipv6-linklocal", false, .ipv6Flag IPUTILS_NI_IPV6_FLAG_LINKLOCAL⟩,
    ⟨ascii "ipv6-sitelocal", false, .ipv6Flag IPUTILS_NI_IPV6_FLAG_SITELOCAL⟩,
    ⟨ascii "ipv6-global", false, .ipv6Flag IPUTILS_NI_IPV6_FLAG_GLOBAL⟩,
    ⟨ascii "ipv4", false, .ipv4⟩,
    ⟨ascii "ipv4-all", false, .ipv4Flag IPUTILS_NI_IPV4_FLAG_ALL⟩,
    ⟨ascii "subject-ipv6", true, .subjectAddr IPUTILS_NI_ICMP6_SUBJ_IPV6⟩,
    ⟨ascii "subject-ipv4", true, .subjectAddr IPUTILS_NI_ICMP6_SUBJ_IPV4⟩,
    ⟨ascii "subject-name", true, .subjectName 0⟩,
    ⟨ascii "subject-fqdn", true, .subjectName (-1)⟩,
    ⟨ascii "help", false, .help⟩]

section Handler

variable (resolver : NiResolver)

/-- `p->handler`, at its index of the table. -/
def NiHandler.run (s : NiState) (index : Nat) (arg : List UInt8) : NiHandler → Handled
  | .name => .ok (niqueryOptionNameHandler s)
  | .ipv6 => .ok (niqueryOptionIpv6Handler s)
  | .ipv6Flag data => .ok (niqueryOptionIpv6FlagHandler s data)
  | .ipv4 => .ok (niqueryOptionIpv4Handler s)
  | .ipv4Flag data => .ok (niqueryOptionIpv4FlagHandler s data)
  | .subjectAddr data => .ok (niqueryOptionSubjectAddrHandler resolver s data arg)
  | .subjectName data => niqueryOptionSubjectNameHandler resolver s data arg
  | .help => niqueryOptionHelpHandler s index

/-- The loop over the table, from an index on. -/
def niqueryOptionLoop (optArg : List UInt8) :
    List NiqueryOption → Nat → NiState → Except NiExit NiState
  | [], _, s => (niqueryOptionHelpHandler s 0).map (·.2)
  | p :: table, index, s =>
      if p.Matches optArg then
        match p.handler.run resolver s index (optArg.drop (p.name.length + 1)) with
        | .error exit => .error exit
        | .ok (true, s) => .ok s
        | .ok (false, s) => niqueryOptionLoop optArg table (index + 1) s
      else niqueryOptionLoop optArg table (index + 1) s

def niqueryOptionHandler (s : NiState) (optArg : CString) : Except NiExit NiState :=
  niqueryOptionLoop resolver optArg.bytes niqueryOptions 0 s

/-- All the arguments of `-N`, one after another. -/
def niqueryArguments (optArgs : List CString) (s : NiState) : Except NiExit NiState :=
  optArgs.foldlM (niqueryOptionHandler resolver) s

end Handler

/-- The subject that `ping6_run` takes when the options have set none: the destination. -/
def niquerySubject (ni : PingNi) (whereto6 : List UInt8) : PingNi :=
  if niqueryIsEnabled ni ∧ ¬niqueryIsSubjectValid ni then
    { ni with subject := whereto6, subjectType := IPUTILS_NI_ICMP6_SUBJ_IPV6 }
  else ni

end Coping
