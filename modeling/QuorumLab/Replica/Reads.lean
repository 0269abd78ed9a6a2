import QuorumLab.Message

/-!
# Linearizable reads in waiting

A leader answers a read once a quorum has confirmed, by heartbeats that carry the
request's tag, that it still leads. Confirming one read confirms those before it.
-/

namespace QuorumLab

structure PendingRead where
  tag : Bytes
  request : Message
  index : Nat
  acks : List Nat
  deriving Repr, DecidableEq, Inhabited

/-- The oldest first. -/
structure Reads where
  queue : List PendingRead := []
  deriving Repr, DecidableEq, Inhabited

namespace Reads

/-- A tag that is waiting already is not added again. -/
def add (r : Reads) (own : Nat) (tag : Bytes) (index : Nat) (request : Message) : Reads :=
  if r.queue.any (·.tag == tag) then r
  else { queue := r.queue ++ [{ tag, request, index, acks := [own] }] }

def lastTag (r : Reads) : Option Bytes := r.queue.getLast?.map PendingRead.tag

/-- `id` has confirmed the read of this tag: who has by now. -/
def confirm (r : Reads) (id : Nat) (tag : Bytes) : Option (List Nat) × Reads :=
  let queue := r.queue.map fun p =>
    if p.tag == tag && !p.acks.contains id then { p with acks := p.acks ++ [id] } else p
  ((queue.find? (·.tag == tag)).map PendingRead.acks, { queue })

/-- Take the reads up to the one of this tag. -/
def release (r : Reads) (tag : Bytes) : List PendingRead × Reads :=
  match r.queue.findIdx? (·.tag == tag) with
  | some i => (r.queue.take (i + 1), { queue := r.queue.drop (i + 1) })
  | none => ([], r)

end Reads

end QuorumLab
