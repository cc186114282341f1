import Ensemble.Peer.Basic
import Mathlib.Data.List.Basic
import Mathlib.Data.Prod.Lex

/-!
# The key by which peers are compared

The `Peer.key` of a peer is its id, then its address, then its port. Keys stand in lexicographic
order. An address counts as its version followed by its octets or groups, so that every address of
version 4 stands below every address of version 6, and addresses of one version are told apart by
the first octet or group in which they differ.

* `IpAddress.rank_lt_iff` — the ranks of addresses stand in this order.
* `Peer.below_iff_key_le` — so do the peers themselves.
-/

namespace Ensemble

/-- Digits of one base that are read after different numbers: the first number decides, and then
the first digit. -/
theorem mul_add_lt_mul_add_iff {base a b x y : Nat} (hx : x < base) (hy : y < base) :
    a * base + x < b * base + y ↔ a < b ∨ a = b ∧ x < y := by
  -- The greater of a and b outweighs whatever is below the base.
  rcases Nat.lt_trichotomy a b with h | rfl | h
  · have hstep : (a + 1) * base ≤ b * base := Nat.mul_le_mul_right base h
    rw [Nat.succ_mul] at hstep
    refine ⟨fun _ => .inl h, fun _ => ?_⟩
    omega
  · constructor
    · intro hlt
      exact .inr ⟨rfl, by omega⟩
    · rintro (hlt | ⟨-, hlt⟩)
      · exact absurd hlt (Nat.lt_irrefl a)
      · omega
  · have hstep : (b + 1) * base ≤ a * base := Nat.mul_le_mul_right base h
    rw [Nat.succ_mul] at hstep
    constructor
    · intro hlt
      omega
    · rintro (hlt | ⟨heq, -⟩)
      · omega
      · omega

/-- Numbers with equally many digits stand in the lexicographic order of their digits. -/
theorem foldl_digits_lt_iff {base : Nat} {xs ys : List Nat} (hlength : xs.length = ys.length)
    (hxs : ∀ x ∈ xs, x < base) (hys : ∀ y ∈ ys, y < base) (a b : Nat) :
    xs.foldl (fun acc x => acc * base + x) a < ys.foldl (fun acc y => acc * base + y) b ↔
      a < b ∨ a = b ∧ xs < ys := by
  -- Induction on the digits: the digit in front decides with what came before it.
  induction xs generalizing ys a b with
  | nil =>
    obtain rfl := List.length_eq_zero_iff.mp hlength.symm
    simp
  | cons x xs ih =>
    cases ys with
    | nil => cases hlength
    | cons y ys =>
      have hx : x < base := hxs x List.mem_cons_self
      have hy : y < base := hys y List.mem_cons_self
      have htail := ih (Nat.succ.inj hlength) (fun x h => hxs x (List.mem_cons_of_mem _ h))
        (fun y h => hys y (List.mem_cons_of_mem _ h)) (a * base + x) (b * base + y)
      have hhead : a * base + x = b * base + y ↔ a = b ∧ x = y := by
        have hlt := mul_add_lt_mul_add_iff (a := a) (b := b) hx hy
        have hgt := mul_add_lt_mul_add_iff (a := b) (b := a) hy hx
        omega
      rw [List.foldl_cons, List.foldl_cons, htail, mul_add_lt_mul_add_iff hx hy, hhead,
        List.cons_lt_cons_iff]
      tauto

/-- The version of an address, and then its octets or its groups. -/
def IpAddress.parts : IpAddress → List Nat
  | .v4 x => 4 :: x.octets.map UInt8.toNat
  | .v6 x => 6 :: x.groups.map UInt16.toNat

/-- Addresses of four octets are ordered by their octets, the first of them first. -/
theorem Ipv4.toNat_lt_iff (x y : Ipv4) :
    x.toNat < y.toNat ↔ x.octets.map UInt8.toNat < y.octets.map UInt8.toNat := by
  have hdigits : ∀ z : Ipv4,
      z.toNat = (z.octets.map UInt8.toNat).foldl (fun acc d => acc * 256 + d) 0 := fun z => by
    simp only [toNat, octets, List.map_cons, List.map_nil, List.foldl_cons, List.foldl_nil]
    omega
  have hbound : ∀ z : Ipv4, ∀ d ∈ z.octets.map UInt8.toNat, d < 256 := by
    intro z d hd
    obtain ⟨octet, -, rfl⟩ := List.mem_map.mp hd
    exact octet.toNat_lt
  have hlength : (x.octets.map UInt8.toNat).length = (y.octets.map UInt8.toNat).length := rfl
  rw [hdigits x, hdigits y, foldl_digits_lt_iff hlength (hbound x) (hbound y)]
  simp

/-- Addresses of eight groups are ordered by their groups, the first of them first. -/
theorem groupsToNat_lt_iff {xs ys : List UInt16} (hlength : xs.length = ys.length) :
    groupsToNat xs < groupsToNat ys ↔ xs.map UInt16.toNat < ys.map UInt16.toNat := by
  have hbound : ∀ zs : List UInt16, ∀ d ∈ zs.map UInt16.toNat, d < 65536 := by
    intro zs d hd
    obtain ⟨group, -, rfl⟩ := List.mem_map.mp hd
    exact group.toNat_lt
  have hdigits : ∀ zs : List UInt16,
      groupsToNat zs = (zs.map UInt16.toNat).foldl (fun acc d => acc * 65536 + d) 0 :=
    fun zs => List.foldl_map.symm
  rw [hdigits, hdigits, foldl_digits_lt_iff (by simpa using hlength) (hbound xs) (hbound ys)]
  simp

/-- Addresses of version 4 stand below those of version 6, and the others in the order of their
octets or groups. -/
theorem IpAddress.rank_lt_iff (x y : IpAddress) : x.rank < y.rank ↔ x.parts < y.parts := by
  cases x with
  | v4 x =>
    cases y with
    | v4 y =>
      rw [parts, parts, List.cons_lt_cons_iff, rank, rank, Ipv4.toNat_lt_iff]
      simp
    | v6 y =>
      -- Every address of four octets is ranked below the first of eight groups.
      have hlt : x.toNat < UInt32.size + groupsToNat y.groups :=
        Nat.lt_of_lt_of_le x.toNat_lt (Nat.le_add_right _ _)
      rw [parts, parts, List.cons_lt_cons_iff, rank, rank]
      exact iff_of_true hlt (.inl (by decide))
  | v6 x =>
    cases y with
    | v4 y =>
      have hlt : y.toNat < UInt32.size + groupsToNat x.groups :=
        Nat.lt_of_lt_of_le y.toNat_lt (Nat.le_add_right _ _)
      rw [parts, parts, List.cons_lt_cons_iff, rank, rank]
      refine iff_of_false (by omega) ?_
      simp
    | v6 y =>
      rw [parts, parts, List.cons_lt_cons_iff, rank, rank, Nat.add_lt_add_iff_left,
        groupsToNat_lt_iff (x.length_eq.trans y.length_eq.symm)]
      simp

/-- What peers are compared by: the id, then the address, then the port. -/
def Peer.key (p : Peer) : Nat ×ₗ List Nat ×ₗ Nat :=
  toLex (p.id.number.toNat, toLex (p.address.parts, p.port.toNat))

/-- One peer stands below another if its key does. -/
theorem Peer.below_iff_key_le (p q : Peer) : p.Below q ↔ p.key ≤ q.key := by
  have hrank : p.address.rank = q.address.rank ↔ p.address.parts = q.address.parts := by
    refine ⟨fun h => congrArg IpAddress.parts (IpAddress.rank_injective h), fun h => ?_⟩
    have hlt := IpAddress.rank_lt_iff p.address q.address
    have hgt := IpAddress.rank_lt_iff q.address p.address
    rw [h] at hlt hgt
    have hirrefl : ¬ q.address.parts < q.address.parts := List.lt_irrefl _
    exact Nat.le_antisymm (Nat.not_lt.mp fun h => hirrefl (hgt.mp h))
      (Nat.not_lt.mp fun h => hirrefl (hlt.mp h))
  rw [Below, key, key, Prod.Lex.toLex_le_toLex, Prod.Lex.toLex_le_toLex,
    IpAddress.rank_lt_iff, hrank]

end Ensemble
