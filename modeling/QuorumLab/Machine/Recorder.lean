import QuorumLab.Machine.Basic
import QuorumLab.Text.Packed

/-!
# The recorder

A machine that remembers the commands it was given and the index of the last one.
-/

namespace QuorumLab

structure Recorder where
  lastIndex : Nat := 0
  commands : List Bytes := []
  deriving Repr, DecidableEq, Inhabited

namespace Recorder

def record (r : Recorder) (index : Nat) (command : Bytes) : Recorder :=
  { lastIndex := index, commands := r.commands ++ [command] }

def encode (r : Recorder) : Bytes := Packed.word r.lastIndex ++ Packed.chunks r.commands

/-- Reads what `encode` wrote; bytes behind it are ignored. -/
def decode (b : Bytes) : Option Recorder := do
  let (lastIndex, b) ← Packed.word? b
  let (commands, _) ← Packed.chunks? b
  return { lastIndex, commands }

/-- The failure of a restore from bytes that end too early. -/
def cutShort : Failure := .machine "io error: unexpected end of file"

/-- Nothing is changed before the bytes have been read. -/
def restore (b : Bytes) (r : Recorder) : Except (Setback Recorder) Recorder :=
  match decode b with
  | some read => .ok read
  | none => .error { failure := cutShort, left := r }

end Recorder

instance : Machine Recorder where
  apply index command r := .done (r.record index command)
  snapshot r := .ok (r.encode, r)
  restore := Recorder.restore

namespace Recorder

theorem restore_error {b : Bytes} {r : Recorder} {s : Setback Recorder}
    (failed : restore b r = .error s) : s = { failure := cutShort, left := r } := by
  rw [restore] at failed
  split at failed
  · cases failed
  · exact (Except.error.inj failed).symm

instance : LawfulMachine Recorder where
  snapshot_ok taken := (Prod.mk.inj (Except.ok.inj taken)).2.symm
  snapshot_error refused := nomatch refused
  restore_error failed := congrArg Setback.left (restore_error failed)

end Recorder

end QuorumLab
