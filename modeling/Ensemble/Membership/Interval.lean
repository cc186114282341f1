/-!
# Recurring times

An `Interval` comes due again and again. It is looked at now and then, and fires if it is due. One
that fires on time is due next one period after it was due; one that fires late by more than the
grace is due next one period after it fired.

* `Interval.lt_due_fire?` — with a period above zero the due time moves on whenever it fires.
-/

namespace Ensemble

/-- A recurring time, in milliseconds. -/
structure Interval where
  period : Nat
  due : Nat
  deriving DecidableEq, Repr

/-- By how many milliseconds a time may be late and still count as on time. -/
def Interval.grace : Nat := 5

/-- The interval that begins at `now` and is first due one period later. A period of zero is
refused. -/
def Interval.start? (period now : Nat) : Option Interval :=
  if period = 0 then none else some ⟨period, now + period⟩

/-- Fire if due: the interval afterwards. -/
def Interval.fire? (i : Interval) (now : Nat) : Option Interval :=
  if now < i.due then none
  -- Late firings are not made up for.
  else if i.due + grace < now then some { i with due := now + i.period }
  else some { i with due := i.due + i.period }

/-- With a period above zero the due time moves on whenever the interval fires. -/
theorem Interval.lt_due_fire? {i j : Interval} {now : Nat} (hp : 0 < i.period)
    (h : i.fire? now = some j) : i.due < j.due := by
  unfold fire? at h
  split at h
  · cases h
  · split at h <;> cases h <;> simp <;> omega

/-- The pieces in which `ms` milliseconds go by, each of `granule` or less. -/
def pieces (granule ms : Nat) : List Nat :=
  if granule = 0 then [ms]
  else
    List.replicate (ms / granule) granule ++ (if ms % granule = 0 then [] else [ms % granule])

/-- The pieces make up the whole time. -/
theorem foldr_pieces (granule ms : Nat) : (pieces granule ms).foldr (· + ·) 0 = ms := by
  rw [← List.sum_eq_foldr]
  unfold pieces
  split
  · simp
  · have := Nat.div_add_mod ms granule
    rw [Nat.mul_comm] at this
    split <;>
      simp only [List.sum_append, List.sum_replicate_nat, List.sum_cons, List.sum_nil] <;> omega

end Ensemble
