import Coping.Library.Calls
import Coping.Ping.PrAddr

/-!
# One remembered address for two procedures

The address of the last call is remembered, but not which of the two procedures has asked for it.
When the other one asks for the same address right behind it, it gets the text of the first. That is
the wrong text when there is a name to be printed, and no other call gets a wrong text.
-/

namespace Coping.AddressCache

open CFormat

/-- A call of one of the two entry points. -/
inductive LookupCall where
  | prAddr (sa : SockAddr)
  | prRawAddr (sa : SockAddr)

namespace LookupCall

def sa : LookupCall → SockAddr
  | .prAddr sa => sa
  | .prRawAddr sa => sa

def resolveName : LookupCall → Bool
  | .prAddr _ => true
  | .prRawAddr _ => false

def run (rts : LookupOptions) (resolver : Resolver) (static : LastLookup) :
    LookupCall → LastLookup × List UInt8
  | .prAddr sa => AddressCache.prAddr rts resolver static sa
  | .prRawAddr sa => AddressCache.prRawAddr rts resolver static sa

theorem run_eq (rts : LookupOptions) (resolver : Resolver) (static : LastLookup)
    (c : LookupCall) :
    c.run rts resolver static = prAddrWith rts resolver static c.sa c.resolveName := by
  cases c <;> rfl

end LookupCall

variable (rts : LookupOptions) (resolver : Resolver)

/-- What a call returns when no call was before it. -/
def uncached (c : LookupCall) : List UInt8 := (c.run rts resolver {}).2

/-- A name other than the number is looked up and found. -/
def Named (sa : SockAddr) : Prop :=
  asksName rts true = true ∧ (resolver.host sa).text.bytes ≠ [] ∧
    (resolver.host sa).text.bytes ≠ (resolver.numericHost sa).text.bytes

instance (sa : SockAddr) : Decidable (Named rts resolver sa) :=
  inferInstanceAs (Decidable (_ ∧ _ ∧ _))

/-- What the two procedures are for: the bare address, and the name with the address. -/
def described : LookupCall → List UInt8
  | .prRawAddr sa => (resolver.numericHost sa).text.bytes
  | .prAddr sa =>
      let address := (resolver.numericHost sa).text.bytes
      if Named rts resolver sa then
        (resolver.host sa).text.bytes ++ ascii " (" ++ address ++ ascii ")"
      else address

/-- Every call returns what it returns without the calls before it, and what it is for. -/
def Transparent (calls : List LookupCall) : Prop :=
  Calls.answers (LookupCall.run rts resolver) {} calls = calls.map (uncached rts resolver) ∧
    ∀ c ∈ calls, uncached rts resolver c = described rts resolver c

/-! ## The text -/

variable {rts resolver}

theorem HostName.take_text (h : HostName) : h.text.bytes.take NI_MAXHOST = h.text.bytes :=
  List.take_of_length_le (Nat.le_of_lt h.fits)

theorem addressLine_raw (sa : SockAddr) :
    addressLine rts resolver sa false = (resolver.numericHost sa).text.bytes := by
  have hasks : asksName rts false = false := by
    rw [asksName, Bool.and_false, Bool.false_and]
  simp only [addressLine, hasks]
  exact if_neg fun h => h.1 rfl

theorem addressLine_name (sa : SockAddr) :
    addressLine rts resolver sa true = described rts resolver (.prAddr sa) := by
  by_cases hasks : asksName rts true = true
  · simp only [addressLine, described, Named, HostName.take_text, hasks, if_true, true_and]
  · have hunnamed : ¬Named rts resolver sa := fun h => hasks h.1
    simp only [addressLine, described, if_neg hasks, if_neg hunnamed]
    exact if_neg fun h => h.1 rfl

/-- The buffer has room for a name and an address. -/
theorem length_addressLine_lt (sa : SockAddr) (resolveName : Bool) :
    (addressLine rts resolver sa resolveName).length < sizeofBuffer := by
  have hname := (resolver.host sa).fits
  have haddress := (resolver.numericHost sa).fits
  rw [NI_MAXHOST] at hname haddress
  have hlengths : (ascii " (").length = 2 ∧ (ascii ")").length = 1 := by decide
  rw [sizeofBuffer]
  cases resolveName with
  | false =>
      rw [addressLine_raw]
      omega
  | true =>
      rw [addressLine_name, described]
      split
      · rw [List.length_append, List.length_append, List.length_append, hlengths.1, hlengths.2]
        omega
      · omega

/-- A name makes the text longer. -/
theorem described_eq_iff (sa : SockAddr) :
    described rts resolver (.prAddr sa) = described rts resolver (.prRawAddr sa) ↔
      ¬Named rts resolver sa := by
  simp only [described]
  split
  next hnamed =>
    refine ⟨fun hsame => ?_, fun hnot => absurd hnamed hnot⟩
    have hlength := congrArg List.length hsame
    have hlengths : (ascii " (").length = 2 := by decide
    rw [List.length_append, List.length_append, List.length_append, hlengths] at hlength
    omega
  next hnot => exact ⟨fun _ => hnot, fun _ => rfl⟩

/-- With the names that are printed elsewhere the text is the same. -/
theorem described_hostText {sa : SockAddr} {host : HostText}
    (address : (resolver.numericHost sa).text.bytes = host.address.bytes)
    (name : (if asksName rts true then (resolver.host sa).text.bytes else []) = host.name.bytes) :
    described rts resolver (.prAddr sa) = host.bytes := by
  by_cases hasks : asksName rts true = true
  · rw [if_pos hasks] at name
    simp only [described, Named, HostText.bytes, ← name, ← address, hasks, true_and]
  · have hunnamed : ¬Named rts resolver sa := fun h => hasks h.1
    rw [if_neg hasks] at name
    rw [described, if_neg hunnamed, HostText.bytes, ← name, if_neg fun h => h.1 rfl, address]

/-! ## Calls -/

/-- The static variables belong to an address and a text. -/
structure Remembers (static : LastLookup) (sa : SockAddr) (text : List UInt8) : Prop where
  salen : static.lastSalen = sa.bytes.length
  address : static.lastSa.take sa.bytes.length = sa.bytes
  text : static.buffer = text

theorem prAddrWith_hit {static : LastLookup} {sa : SockAddr} {text : List UInt8}
    (h : Remembers static sa text) (resolveName : Bool) :
    prAddrWith rts resolver static sa resolveName = (static, text) := by
  rw [prAddrWith, if_pos ⟨h.salen.symm, h.address.symm⟩, h.text]

theorem prAddrWith_miss {static : LastLookup} {sa : SockAddr} (resolveName : Bool)
    (other : ¬(sa.bytes.length = static.lastSalen ∧
      sa.bytes = static.lastSa.take sa.bytes.length)) :
    (prAddrWith rts resolver static sa resolveName).2 = addressLine rts resolver sa resolveName ∧
      Remembers (prAddrWith rts resolver static sa resolveName).1 sa
        (addressLine rts resolver sa resolveName) := by
  have hfits := @length_addressLine_lt rts resolver sa resolveName
  have htake : (addressLine rts resolver sa resolveName).take (sizeofBuffer - 1) =
      addressLine rts resolver sa resolveName :=
    List.take_of_length_le (Nat.le_pred_of_lt hfits)
  rw [prAddrWith, if_neg other, htake]
  exact ⟨rfl, ⟨rfl, List.take_left, rfl⟩⟩

/-- An address has a family, and nothing is remembered of no bytes. -/
theorem fresh_miss (sa : SockAddr) :
    ¬(sa.bytes.length = ({} : LastLookup).lastSalen ∧
      sa.bytes = ({} : LastLookup).lastSa.take sa.bytes.length) :=
  fun h => absurd sa.family (by rw [h.1]; decide)

theorem uncached_eq_line (c : LookupCall) :
    uncached rts resolver c = addressLine rts resolver c.sa c.resolveName := by
  rw [uncached, c.run_eq]
  exact (prAddrWith_miss c.resolveName (fresh_miss c.sa)).1

theorem uncached_eq (c : LookupCall) : uncached rts resolver c = described rts resolver c := by
  rw [uncached_eq_line]
  cases c with
  | prAddr sa => exact addressLine_name sa
  | prRawAddr sa => exact addressLine_raw sa

theorem lookup_oneEntry :
    Calls.OneEntry (LookupCall.run rts resolver) LookupCall.sa (uncached rts resolver)
      Remembers where
  hit := by
    intro static c text holds
    rw [c.run_eq, prAddrWith_hit holds]
    exact ⟨rfl, holds⟩
  miss := by
    intro static c sa text holds other
    rw [c.run_eq, uncached_eq_line]
    refine prAddrWith_miss c.resolveName ?_
    rintro ⟨hlength, hbytes⟩
    rw [hlength, holds.salen, holds.address] at hbytes
    exact other (SockAddr.ext hbytes.symm)

/-- Calls for one address agree when they are of one procedure, or no name is found. -/
theorem uncached_agree_iff {c d : LookupCall} (same : c.sa = d.sa) :
    uncached rts resolver c = uncached rts resolver d ↔
      (Named rts resolver c.sa → c.resolveName = d.resolveName) := by
  rw [uncached_eq, uncached_eq]
  cases c with
  | prAddr sa =>
      cases d with
      | prAddr sa' =>
          cases same
          exact ⟨fun _ _ => rfl, fun _ => rfl⟩
      | prRawAddr sa' =>
          cases same
          rw [described_eq_iff]
          exact ⟨fun hnot hnamed => absurd hnamed hnot,
            fun hsame hnamed => Bool.false_ne_true (hsame hnamed).symm⟩
  | prRawAddr sa =>
      cases d with
      | prAddr sa' =>
          cases same
          rw [eq_comm, described_eq_iff]
          exact ⟨fun hnot hnamed => absurd hnamed hnot,
            fun hsame hnamed => Bool.false_ne_true (hsame hnamed)⟩
      | prRawAddr sa' =>
          cases same
          exact ⟨fun _ _ => rfl, fun _ => rfl⟩

/-- The cache is transparent exactly if nowhere in the row one procedure asks for an address that
has a name right behind the other. -/
theorem cache_transparent (rts : LookupOptions) (resolver : Resolver) (calls : List LookupCall) :
    Transparent rts resolver calls ↔
      calls.IsChain fun c d =>
        c.sa = d.sa → Named rts resolver c.sa → c.resolveName = d.resolveName := by
  have hempty : ∀ c : LookupCall, (c.run rts resolver {}).2 = uncached rts resolver c ∧
      Remembers (c.run rts resolver {}).1 c.sa (uncached rts resolver c) := by
    intro c
    rw [uncached_eq_line, c.run_eq]
    exact prAddrWith_miss c.resolveName (fresh_miss c.sa)
  rw [Transparent, lookup_oneEntry.answers_eq_map_iff_of_empty hempty,
    and_iff_left fun c _ => uncached_eq c]
  refine List.IsChain.iff fun c d => ?_
  exact forall_congr' uncached_agree_iff

/-- The loopback address, whose name is found. -/
def localhost : SockAddr :=
  ⟨[2, 0, 0, 0, 127, 0, 0, 1, 0, 0, 0, 0, 0, 0, 0, 0], by decide, by decide⟩

def localResolver : Resolver where
  numericHost _ := ⟨⟨ascii "127.0.0.1", by decide⟩, by decide⟩
  host _ := ⟨⟨ascii "localhost", by decide⟩, by decide⟩

/-- The bare address, and then the address with the name. -/
theorem cache_seen : ¬Transparent {} localResolver [.prRawAddr localhost, .prAddr localhost] := by
  intro h
  have hanswers := congrArg (·[1]?) h.1
  revert hanswers
  decide

end Coping.AddressCache
