/-!
# Cancel tokens

Tokens come in families. A fresh token founds one, a copy of a token joins its family, and cancelling any
token of a family cancels all of them. A family is a flag that its tokens point to.
-/

namespace StorageProof

/-- The flag of each token, in the order they were made, and whether each flag is set. -/
structure TokenPool where
  flagOf : List Nat
  flags : List Bool
  deriving DecidableEq, Repr

namespace TokenPool

/-- What can be done with tokens, which are known by the order they were made in. -/
inductive Step
  | fresh
  | copy (token : Nat)
  | cancel (token : Nat)
  deriving DecidableEq, Repr

def empty : TokenPool := ⟨[], []⟩

/-- One step. A step on a token that does not exist changes nothing. -/
def step (p : TokenPool) : Step → TokenPool
  | .fresh => ⟨p.flagOf ++ [p.flags.length], p.flags ++ [false]⟩
  | .copy token =>
    match p.flagOf[token]? with
    | some flag => { p with flagOf := p.flagOf ++ [flag] }
    | none => p
  | .cancel token =>
    match p.flagOf[token]? with
    | some flag => { p with flags := p.flags.set flag true }
    | none => p

def run (p : TokenPool) (steps : List Step) : TokenPool := steps.foldl step p

def isCancelled (p : TokenPool) (token : Nat) : Bool :=
  match p.flagOf[token]? with
  | some flag => p.flags.getD flag false
  | none => false

def states (p : TokenPool) : List Bool := p.flagOf.map fun flag => p.flags.getD flag false

end TokenPool

end StorageProof
