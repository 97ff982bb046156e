import StorageProof.Call.Cancellation

/-!
# A token and its copies

A token is held while other tokens are made, copied and cancelled. Its copies, and their copies,
share its flag from the beginning to the end: once any of them has been cancelled, the token is, and
it stays so.
-/

namespace StorageProof

namespace TokenPool

variable {p : TokenPool} {a flag : Nat}

/-- No token changes its flag. -/
theorem getElem?_flagOf_step (h : p.flagOf[a]? = some flag) (s : Step) :
    (p.step s).flagOf[a]? = some flag := by
  have happend (last : Nat) : (p.flagOf ++ [last])[a]? = some flag := by
    rw [List.getElem?_append_left (List.getElem?_eq_some_iff.mp h).1, h]
  cases s with
  | fresh => exact happend _
  | copy token =>
    rcases ht : p.flagOf[token]? with _ | other
    · simp only [step, ht, h]
    · simp only [step, ht]
      exact happend other
  | cancel token =>
    rcases ht : p.flagOf[token]? with _ | other
    · simp only [step, ht, h]
    · simp only [step, ht, h]

theorem length_flags_step (p : TokenPool) (s : Step) :
    p.flags.length ≤ (p.step s).flags.length := by
  cases s with
  | fresh => simp [step]
  | copy token => rcases ht : p.flagOf[token]? with _ | other <;> simp [step, ht]
  | cancel token => rcases ht : p.flagOf[token]? with _ | other <;> simp [step, ht]

/-- A flag that is set stays set. -/
theorem getElem?_flags_step (h : p.flags[flag]? = some true) (s : Step) :
    (p.step s).flags[flag]? = some true := by
  cases s with
  | fresh =>
    show (p.flags ++ [false])[flag]? = some true
    rw [List.getElem?_append_left (List.getElem?_eq_some_iff.mp h).1, h]
  | copy token => rcases ht : p.flagOf[token]? with _ | other <;> simp only [step, ht, h]
  | cancel token =>
    rcases ht : p.flagOf[token]? with _ | other
    · simp only [step, ht, h]
    · simp only [step, ht, List.getElem?_set]
      split
      · rename_i heq
        subst heq
        rw [if_pos (List.getElem?_eq_some_iff.mp h).1]
      · exact h

theorem isCancelled_iff (h : p.flagOf[a]? = some flag) :
    p.isCancelled a = true ↔ p.flags[flag]? = some true := by
  simp only [isCancelled, h, List.getD_eq_getElem?_getD]
  rcases p.flags[flag]? with _ | set <;> simp

end TokenPool

/-- A token among others, with all the copies that have been made of it and of these. -/
structure Held where
  pool : TokenPool
  own : Nat
  copies : List Nat := []
  flag : Nat
  flagOf_own : pool.flagOf[own]? = some flag
  flagOf_copies : ∀ k ∈ copies, pool.flagOf[k]? = some flag
  flag_lt : flag < pool.flags.length

namespace Held

/-- The token and its copies. -/
def family (held : Held) : List Nat := held.own :: held.copies

theorem flagOf_family {held : Held} {k : Nat} (h : k ∈ held.family) :
    held.pool.flagOf[k]? = some held.flag := by
  rcases List.mem_cons.mp h with rfl | h
  · exact held.flagOf_own
  · exact held.flagOf_copies k h

def fresh (p : TokenPool) : Held where
  pool := p.step .fresh
  own := p.flagOf.length
  flag := p.flags.length
  flagOf_own := by simp [TokenPool.step]
  flagOf_copies := fun _ h => absurd h List.not_mem_nil
  flag_lt := by simp [TokenPool.step]

/-- Something is done with tokens; whoever copies one of the family adds to it. -/
def step (held : Held) (s : TokenPool.Step) : Held where
  pool := held.pool.step s
  own := held.own
  copies := match s with
    | .copy k => if k ∈ held.family then held.copies ++ [held.pool.flagOf.length] else held.copies
    | _ => held.copies
  flag := held.flag
  flagOf_own := TokenPool.getElem?_flagOf_step held.flagOf_own s
  flagOf_copies := by
    intro k hk
    have hold (h : k ∈ held.copies) : (held.pool.step s).flagOf[k]? = some held.flag :=
      TokenPool.getElem?_flagOf_step (held.flagOf_copies k h) s
    cases s with
    | fresh => exact hold hk
    | cancel token => exact hold hk
    | copy token =>
      by_cases hfamily : token ∈ held.family
      · simp only [hfamily, if_true, List.mem_append, List.mem_singleton] at hk
        rcases hk with hk | rfl
        · exact hold hk
        · simp [TokenPool.step, flagOf_family hfamily]
      · simp only [hfamily, if_false] at hk
        exact hold hk
  flag_lt := Nat.lt_of_lt_of_le held.flag_lt (held.pool.length_flags_step s)

def isCancelled (held : Held) : Bool := held.pool.isCancelled held.own

variable {held : Held}

theorem isCancelled_iff_flag : held.isCancelled = true ↔ held.pool.flags[held.flag]? = some true :=
  TokenPool.isCancelled_iff held.flagOf_own

theorem isCancelled_step (h : held.isCancelled = true) (s : TokenPool.Step) :
    (held.step s).isCancelled = true := by
  rw [isCancelled_iff_flag] at h ⊢
  exact TokenPool.getElem?_flags_step h s

/-- Whoever cancels one of the family cancels the token. -/
theorem isCancelled_step_cancel {k : Nat} (h : k ∈ held.family) :
    (held.step (.cancel k)).isCancelled = true := by
  rw [isCancelled_iff_flag]
  show (held.pool.step (.cancel k)).flags[held.flag]? = some true
  simp only [TokenPool.step, flagOf_family h]
  exact List.getElem?_set_self held.flag_lt

end Held

end StorageProof
