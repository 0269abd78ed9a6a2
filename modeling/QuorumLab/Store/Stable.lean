import QuorumLab.Entry

/-!
# The stable store

The hard state of a replica and the membership it knows.
-/

namespace QuorumLab

structure Stable where
  hard : HardState := {}
  membership : Membership := {}
  deriving Repr, DecidableEq, Inhabited

namespace Stable

def setHardState (s : Stable) (hard : HardState) : Stable := { s with hard }

def setCommit (s : Stable) (commit : Nat) : Stable := { s with hard := { s.hard with commit } }

def setMembership (s : Stable) (membership : Membership) : Stable := { s with membership }

/-- Whether a membership was ever recorded. -/
def initialized (s : Stable) : Bool := !s.membership.voters.isEmpty

/-- Record a restored snapshot; the term is raised to the snapshot's but never lowered. -/
def restore (s : Stable) (index term : Nat) (membership : Membership) : Stable :=
  { hard := { s.hard with commit := index, term := max s.hard.term term }, membership }

end Stable

end QuorumLab
