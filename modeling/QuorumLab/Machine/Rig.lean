import QuorumLab.Machine.Recorder

/-!
# Misbehaving machines

Recorders that fail on purpose, for tests of what surrounds a machine.
-/

namespace QuorumLab

/-- In what way a machine misbehaves: `gate` holds every command up until it is opened. -/
inductive Temper where
  | plain | failSnapshot | failRestore | faultOnApply | faultOnBoom | gate
  deriving Repr, DecidableEq, Inhabited

structure Rig where
  temper : Temper := .plain
  recorder : Recorder := {}
  opened : Bool := false
  deriving Repr, DecidableEq, Inhabited

namespace Rig

/-- The command that `faultOnBoom` does not survive. -/
def boom : Bytes := "boom".toUTF8.toList

def apply (r : Rig) (index : Nat) (command : Bytes) : Applied Rig :=
  let done : Applied Rig := .done { r with recorder := r.recorder.record index command }
  match r.temper with
  | .faultOnApply => .fault (.machine s!"cannot apply entry {index}")
  | .faultOnBoom => if command = boom then .fault (.machine s!"boom at {index}") else done
  | .gate => if r.opened then done else .held
  | _ => done

def snapshot (r : Rig) : Except (Setback Rig) (Bytes × Rig) :=
  match r.temper with
  | .failSnapshot => .error { failure := .machine "disk full", left := r }
  | _ => .ok (r.recorder.encode, r)

def restore (b : Bytes) (r : Rig) : Except (Setback Rig) Rig :=
  match r.temper with
  | .failRestore => .error { failure := .machine "corrupt", left := r }
  | _ => match Recorder.restore b r.recorder with
    | .ok recorder => .ok { r with recorder }
    | .error s => .error (s.map ({ r with recorder := · }))

end Rig

instance : Machine Rig where
  apply index command r := r.apply index command
  snapshot := Rig.snapshot
  restore := Rig.restore

instance : LawfulMachine Rig where
  snapshot_ok {r _ _} taken := by
    change r.snapshot = _ at taken
    rw [Rig.snapshot] at taken
    split at taken <;> cases taken
    rfl
  snapshot_error {r _} refused := by
    change r.snapshot = _ at refused
    rw [Rig.snapshot] at refused
    split at refused <;> cases refused
    rfl
  restore_error {r b _} failed := by
    change r.restore b = _ at failed
    rw [Rig.restore] at failed
    split at failed
    · cases failed
      rfl
    · split at failed
      · cases failed
      · rename_i s refused
        cases failed
        rw [Recorder.restore_error refused]
        rfl

end QuorumLab
