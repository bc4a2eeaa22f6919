import Mathlib.Data.Finset.Basic

/-!
# Credentials of a process

User ids and capability sets of a process and the system calls that change them,
as `credentials(7)` and `capabilities(7)` describe them. A call that the kernel
refuses has no result.

A program that was started with more than its caller has is `Reduced` when it acts
as its caller and keeps nothing that it got from its file. No system call here makes
a reduced process anything else.
-/

/-- The user ids and the capability sets of a process. -/
structure Credentials where
  ruid : Nat
  euid : Nat
  suid : Nat
  permitted : Finset Nat
  effective : Finset Nat
  /-- The flag of `PR_SET_KEEPCAPS`. -/
  keepCaps : Bool := false
  effective_subset : effective ⊆ permitted

namespace Credentials

def CAP_SETUID : Nat := 7

/-- One of the ids was that of root and none of the new ones is. -/
def leavesRoot (c : Credentials) (ruid euid suid : Nat) : Bool :=
  (c.ruid = 0 || c.euid = 0 || c.suid = 0) && ruid ≠ 0 && euid ≠ 0 && suid ≠ 0

/-- The capabilities that remain permitted under new user ids. -/
def permittedAfter (c : Credentials) (ruid euid suid : Nat) : Finset Nat :=
  if c.leavesRoot ruid euid suid ∧ ¬c.keepCaps then ∅ else c.permitted

/-- New user ids, with the adjustment of the capability sets that they entail. -/
def setIds (c : Credentials) (ruid euid suid : Nat) : Credentials :=
  { c with
    ruid := ruid
    euid := euid
    suid := suid
    permitted := c.permittedAfter ruid euid suid
    effective :=
      if c.euid = 0 ∧ euid ≠ 0 then ∅
      else if c.euid ≠ 0 ∧ euid = 0 then c.permittedAfter ruid euid suid
      else c.effective ∩ c.permittedAfter ruid euid suid
    effective_subset := by
      split
      · exact Finset.empty_subset _
      split
      · exact Finset.Subset.refl _
      · exact Finset.inter_subset_right }

def setuid (c : Credentials) (uid : Nat) : Option Credentials :=
  if CAP_SETUID ∈ c.effective then some (c.setIds uid uid uid)
  else if uid = c.ruid ∨ uid = c.suid then some (c.setIds c.ruid uid c.suid)
  else none

def seteuid (c : Credentials) (uid : Nat) : Option Credentials :=
  if CAP_SETUID ∈ c.effective ∨ uid = c.ruid ∨ uid = c.euid ∨ uid = c.suid then
    some (c.setIds c.ruid uid c.suid)
  else none

/-- `capset`: capabilities can be dropped and permitted ones be made effective. -/
def capset (c : Credentials) (permitted effective : Finset Nat) : Option Credentials :=
  if h : effective ⊆ permitted then
    if permitted ⊆ c.permitted then
      some { c with permitted := permitted, effective := effective, effective_subset := h }
    else none
  else none

def setKeepCaps (c : Credentials) (keep : Bool) : Credentials := { c with keepCaps := keep }

/-! ## Reduced processes -/

/-- The process acts as its caller and has none of the capabilities in `granted`. -/
structure Reduced (granted : Finset Nat) (c : Credentials) : Prop where
  uid : c.euid = c.ruid
  caps : Disjoint granted c.permitted

instance (granted : Finset Nat) (c : Credentials) : Decidable (Reduced granted c) :=
  decidable_of_iff (c.euid = c.ruid ∧ Disjoint granted c.permitted)
    ⟨fun h => ⟨h.1, h.2⟩, fun h => ⟨h.uid, h.caps⟩⟩

variable {granted : Finset Nat} {c c' : Credentials} {uid : Nat}

theorem setIds_permitted_subset (c : Credentials) (ruid euid suid : Nat) :
    (c.setIds ruid euid suid).permitted ⊆ c.permitted := by
  change c.permittedAfter ruid euid suid ⊆ c.permitted
  simp only [permittedAfter]
  split
  · exact Finset.empty_subset _
  · exact Finset.Subset.refl _

/-- A call that fails changes nothing, one that succeeds sets the effective id and
leaves no more capabilities than before. -/
theorem setuid_ruid_spec (h : c.setuid c.ruid = some c') :
    c'.ruid = c.ruid ∧ c'.euid = c.ruid ∧ c'.permitted ⊆ c.permitted := by
  simp only [setuid] at h
  split at h
  · cases h
    exact ⟨rfl, rfl, setIds_permitted_subset _ _ _ _⟩
  split at h
  · cases h
    exact ⟨rfl, rfl, setIds_permitted_subset _ _ _ _⟩
  · cases h

theorem seteuid_spec (h : c.seteuid uid = some c') :
    c'.ruid = c.ruid ∧ c'.euid = uid ∧ c'.permitted ⊆ c.permitted := by
  simp only [seteuid] at h
  split at h
  · cases h
    exact ⟨rfl, rfl, setIds_permitted_subset _ _ _ _⟩
  · cases h

theorem capset_spec {permitted effective : Finset Nat}
    (h : c.capset permitted effective = some c') :
    c'.ruid = c.ruid ∧ c'.euid = c.euid ∧ c'.permitted = permitted ∧ permitted ⊆ c.permitted := by
  simp only [capset] at h
  split at h
  · split at h
    · next hsub =>
        cases h
        exact ⟨rfl, rfl, rfl, hsub⟩
    · cases h
  · cases h

/-- Fewer capabilities and the caller's id: reduced if the process was. -/
theorem Reduced.of_subset (h : Reduced granted c) (uid : c'.euid = c'.ruid)
    (caps : c'.permitted ⊆ c.permitted) : Reduced granted c' :=
  ⟨uid, h.caps.mono_right caps⟩

end Credentials
