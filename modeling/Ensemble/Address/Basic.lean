/-!
# Network addresses

An `IpAddress` is one of the two kinds of address that a peer can have, and an `Endpoint` is an
address together with the port that is listened on. Addresses are ordered by `rank`: every address
of version 4 stands below every address of version 6, and within one version they stand in the order
of their numbers. An embedded address such as `::ffff:1.2.3.4` is of version 6.

* `IpAddress.rank_injective` — the order separates all addresses.
-/

namespace Ensemble

/-- An address of version 4: four octets. -/
structure Ipv4 where
  a : UInt8
  b : UInt8
  c : UInt8
  d : UInt8
  deriving DecidableEq, Repr, Inhabited

/-- An address of version 6: eight groups of sixteen bits. -/
structure Ipv6 where
  groups : List UInt16
  length_eq : groups.length = 8
  deriving DecidableEq, Repr

/-- An address of either version. -/
inductive IpAddress where
  | v4 (address : Ipv4)
  | v6 (address : Ipv6)
  deriving DecidableEq, Repr

/-- Where a peer listens: its address and the port. -/
structure Endpoint where
  address : IpAddress
  port : UInt16
  deriving DecidableEq, Repr

/-- The number that the four octets spell. -/
def Ipv4.toNat (x : Ipv4) : Nat :=
  ((x.a.toNat * 256 + x.b.toNat) * 256 + x.c.toNat) * 256 + x.d.toNat

/-- The octets, most significant first. -/
def Ipv4.octets (x : Ipv4) : List UInt8 := [x.a, x.b, x.c, x.d]

/-- The number that a list of groups spells. -/
def groupsToNat (groups : List UInt16) : Nat :=
  groups.foldl (fun acc g => acc * 65536 + g.toNat) 0

/-- The place of an address in the order of all addresses. -/
def IpAddress.rank : IpAddress → Nat
  | .v4 x => x.toNat
  | .v6 x => UInt32.size + groupsToNat x.groups

/-- The number zero in either version, which stands for every address of a machine. -/
def IpAddress.isUnspecified : IpAddress → Bool
  | .v4 x => x.toNat == 0
  | .v6 x => groupsToNat x.groups == 0

/-- Whether an address leads back to the machine itself. -/
def IpAddress.isLoopback : IpAddress → Bool
  | .v4 x => x.a == 127
  | .v6 x => groupsToNat x.groups == 1

/-! ## The order separates addresses -/

theorem Ipv4.toNat_lt (x : Ipv4) : x.toNat < UInt32.size := by
  have ha := x.a.toNat_lt
  have hb := x.b.toNat_lt
  have hc := x.c.toNat_lt
  have hd := x.d.toNat_lt
  simp only [toNat, UInt32.size]
  omega

theorem Ipv4.toNat_injective {x y : Ipv4} (h : x.toNat = y.toNat) : x = y := by
  obtain ⟨a, b, c, d⟩ := x
  obtain ⟨a', b', c', d'⟩ := y
  have h1 := a.toNat_lt
  have h2 := b.toNat_lt
  have h3 := c.toNat_lt
  have h4 := d.toNat_lt
  have h5 := a'.toNat_lt
  have h6 := b'.toNat_lt
  have h7 := c'.toNat_lt
  have h8 := d'.toNat_lt
  simp only [toNat] at h
  have ea : a.toNat = a'.toNat := by omega
  have eb : b.toNat = b'.toNat := by omega
  have ec : c.toNat = c'.toNat := by omega
  have ed : d.toNat = d'.toNat := by omega
  rw [UInt8.toNat_inj.mp ea, UInt8.toNat_inj.mp eb, UInt8.toNat_inj.mp ec, UInt8.toNat_inj.mp ed]

theorem groupsToNat_append_singleton (groups : List UInt16) (g : UInt16) :
    groupsToNat (groups ++ [g]) = groupsToNat groups * 65536 + g.toNat := by
  simp [groupsToNat]

/-- Lists of one length with the same number are the same list. -/
theorem groupsToNat_injective {n : Nat} {xs ys : List UInt16} (hx : xs.length = n)
    (hy : ys.length = n) (h : groupsToNat xs = groupsToNat ys) : xs = ys := by
  induction n generalizing xs ys with
  | zero => rw [List.length_eq_zero_iff.mp hx, List.length_eq_zero_iff.mp hy]
  | succ n ih =>
    have nx : xs ≠ [] := by intro e; simp [e] at hx
    have ny : ys ≠ [] := by intro e; simp [e] at hy
    rw [← List.dropLast_concat_getLast nx, ← List.dropLast_concat_getLast ny] at h ⊢
    simp only [groupsToNat_append_singleton] at h
    have hlx := (xs.getLast nx).toNat_lt
    have hly := (ys.getLast ny).toNat_lt
    have e1 : groupsToNat xs.dropLast = groupsToNat ys.dropLast := by omega
    have e2 : (xs.getLast nx).toNat = (ys.getLast ny).toNat := by omega
    rw [ih (by simp [hx]) (by simp [hy]) e1, UInt16.toNat_inj.mp e2]

/-- Different addresses have different ranks. -/
theorem IpAddress.rank_injective {x y : IpAddress} (h : x.rank = y.rank) : x = y := by
  match x, y with
  | .v4 x, .v4 y => rw [Ipv4.toNat_injective h]
  | .v4 x, .v6 y =>
    have := x.toNat_lt
    simp only [rank] at h
    omega
  | .v6 x, .v4 y =>
    have := y.toNat_lt
    simp only [rank] at h
    omega
  | .v6 x, .v6 y =>
    have e : groupsToNat x.groups = groupsToNat y.groups := by
      simp only [rank] at h
      omega
    obtain ⟨gx, hx⟩ := x
    obtain ⟨gy, hy⟩ := y
    have : gx = gy := groupsToNat_injective hx hy e
    subst this
    rfl

end Ensemble
