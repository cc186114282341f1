/-!
# Cancellation tokens

A token is handed to a task that is to end once the token is cancelled. Tokens of the pool's root
are all cancelled together with the root, those that are issued later included; a free token is
not. Nothing ever takes a cancellation back.

* `isCancelled_mono_cancel` — cancelling a token leaves no other token less cancelled.
-/

namespace Ensemble

/-- A cancellation token. -/
structure Token where
  serial : Nat
  /-- Whether the token belongs to the root. -/
  rooted : Bool
  deriving DecidableEq, Repr

/-- All tokens that were issued, and which of them are cancelled. -/
structure TokenPool where
  issued : Nat
  cancelled : List Nat
  rootCancelled : Bool
  deriving DecidableEq, Repr

namespace TokenPool

/-- The pool before any token was issued. -/
def empty : TokenPool := ⟨0, [], false⟩

/-- Whether a token is cancelled. -/
def isCancelled (pool : TokenPool) (t : Token) : Bool :=
  pool.cancelled.contains t.serial || (t.rooted && pool.rootCancelled)

/-- Issue a token of the root. -/
def issue (pool : TokenPool) : TokenPool × Token :=
  ({ pool with issued := pool.issued + 1 }, ⟨pool.issued, true⟩)

/-- Issue a token that stands alone. -/
def issueFree (pool : TokenPool) : TokenPool × Token :=
  ({ pool with issued := pool.issued + 1 }, ⟨pool.issued, false⟩)

/-- Cancel a token. -/
def cancel (pool : TokenPool) (t : Token) : TokenPool :=
  { pool with cancelled := t.serial :: pool.cancelled }

/-- Cancel tokens one after the other. -/
def cancelAll (pool : TokenPool) (ts : List Token) : TokenPool := ts.foldl cancel pool

/-- Cancel the root and with it all its tokens. -/
def cancelRoot (pool : TokenPool) : TokenPool := { pool with rootCancelled := true }

theorem isCancelled_mono_cancel {pool : TokenPool} {t : Token} (u : Token)
    (h : pool.isCancelled t = true) : (pool.cancel u).isCancelled t = true := by
  simp only [isCancelled, cancel, Bool.or_eq_true, List.contains_cons] at h ⊢
  rcases h with h | h
  · exact .inl (.inr h)
  · exact .inr h

theorem isCancelled_mono_cancelAll {pool : TokenPool} {t : Token} (us : List Token)
    (h : pool.isCancelled t = true) : (pool.cancelAll us).isCancelled t = true := by
  induction us generalizing pool with
  | nil => exact h
  | cons u us ih => exact ih (isCancelled_mono_cancel u h)

end TokenPool

end Ensemble
