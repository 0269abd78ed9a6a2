import QuorumLab.Failure

/-!
# Peer directories

A directory lists the other nodes that a node votes with and replicates to.
-/

namespace QuorumLab

structure Peer where
  id : Nat
  address : String
  deriving Repr, DecidableEq, Inhabited

abbrev Directory := List Peer

namespace Directory

def ids (d : Directory) : List Nat := d.map Peer.id

def retain (d : Directory) (keep : Peer → Bool) : Directory := d.filter keep

/-- The directory of the node at position `i`: all peers but its own entry, in order. -/
def around (peers : List Peer) (i : Nat) : Directory := peers.eraseIdx i

/-- One directory per node; the caller has to bring as many nodes as directories. -/
def populate (stores : Nat) (peers : List Peer) : Except Fault (List Directory) :=
  if stores = peers.length then .ok ((List.range stores).map (around peers))
  else .error (.lengthsDiffer stores peers.length)

end Directory

end QuorumLab
