import QuorumLab.Entry
import QuorumLab.Failure

/-!
# State machines

A machine is given every committed command in log order, can be asked for its whole
state, and can be put back to a state it was asked for.
-/

namespace QuorumLab

/-- How far a machine got with a command: done, held up before it started, or at fault. -/
inductive Applied (μ : Type) where
  | done (machine : μ)
  | held
  | fault (f : Fault)
  deriving Repr

/-- A failure, and the state it left behind. -/
structure Setback (σ : Type) where
  failure : Failure
  left : σ
  deriving Repr, DecidableEq, Inhabited

namespace Setback

variable {σ τ : Type}

instance : CoeOut (Setback σ) Failure := ⟨failure⟩

def map (g : σ → τ) (s : Setback σ) : Setback τ := { failure := s.failure, left := g s.left }

end Setback

/-- The operations of a machine with states of type `μ`. Each may change the machine, also when
it fails. -/
class Machine (μ : Type) where
  apply : (index : Nat) → (command : Bytes) → μ → Applied μ
  snapshot : μ → Except (Setback μ) (Bytes × μ)
  restore : Bytes → μ → Except (Setback μ) μ

/-- A machine that is changed by nothing but commands and the restores that succeed. -/
class LawfulMachine (μ : Type) [Machine μ] : Prop where
  /-- To be asked for its state leaves it in that state. -/
  snapshot_ok {m m' : μ} {data : Bytes} : Machine.snapshot m = .ok (data, m') → m' = m
  snapshot_error {m : μ} {s : Setback μ} : Machine.snapshot m = .error s → s.left = m
  restore_error {m : μ} {data : Bytes} {s : Setback μ} :
    Machine.restore data m = .error s → s.left = m

/-- How often each operation of a machine succeeded. -/
structure Counters where
  applied : Nat := 0
  snapshots : Nat := 0
  restores : Nat := 0
  deriving Repr, DecidableEq, Inhabited

/-- A machine under observation. -/
structure Watched (μ : Type) where
  machine : μ
  counters : Counters := {}
  deriving Repr, Inhabited

namespace Watched

variable {μ : Type} [Machine μ]

def apply (w : Watched μ) (index : Nat) (command : Bytes) : Applied (Watched μ) :=
  match Machine.apply index command w.machine with
  | .done machine =>
    .done { machine, counters := { w.counters with applied := w.counters.applied + 1 } }
  | .held => .held
  | .fault f => .fault f

def snapshot (w : Watched μ) : Except (Setback (Watched μ)) (Bytes × Watched μ) :=
  match Machine.snapshot w.machine with
  | .ok (data, machine) =>
    .ok (data, { machine, counters := { w.counters with snapshots := w.counters.snapshots + 1 } })
  | .error s => .error (s.map fun machine => { w with machine })

def restore (w : Watched μ) (data : Bytes) : Except (Setback (Watched μ)) (Watched μ) :=
  match Machine.restore data w.machine with
  | .ok machine =>
    .ok { machine, counters := { w.counters with restores := w.counters.restores + 1 } }
  | .error s => .error (s.map fun machine => { w with machine })

variable {w w' : Watched μ} {data : Bytes}

theorem snapshot_ok (taken : w.snapshot = .ok (data, w')) :
    Machine.snapshot w.machine = .ok (data, w'.machine) ∧
      w'.counters = { w.counters with snapshots := w.counters.snapshots + 1 } := by
  cases asked : Machine.snapshot w.machine with
  | ok result =>
    simp only [snapshot, asked] at taken
    cases taken
    exact ⟨rfl, rfl⟩
  | error s => simp only [snapshot, asked] at taken; cases taken

theorem restore_ok (restored : w.restore data = .ok w') :
    Machine.restore data w.machine = .ok w'.machine ∧
      w'.counters = { w.counters with restores := w.counters.restores + 1 } := by
  cases given : Machine.restore data w.machine with
  | ok machine =>
    simp only [restore, given] at restored
    cases restored
    exact ⟨rfl, rfl⟩
  | error s => simp only [restore, given] at restored; cases restored

/-- A machine that refuses to be asked is all that can have changed. -/
theorem snapshot_error {s : Setback (Watched μ)} (refused : w.snapshot = .error s) :
    ∃ machine, Machine.snapshot w.machine = .error { failure := s, left := machine } ∧
      s.left = { w with machine } := by
  cases asked : Machine.snapshot w.machine with
  | ok result => simp only [snapshot, asked] at refused; cases refused
  | error setback =>
    simp only [snapshot, asked] at refused
    cases refused
    exact ⟨setback.left, rfl, rfl⟩

section Lawful

variable [LawfulMachine μ]

theorem machine_of_snapshot_ok (taken : w.snapshot = .ok (data, w')) : w'.machine = w.machine :=
  LawfulMachine.snapshot_ok (snapshot_ok taken).1

theorem left_of_snapshot_error {s : Setback (Watched μ)} (refused : w.snapshot = .error s) :
    s.left = w := by
  obtain ⟨machine, asked, left⟩ := snapshot_error refused
  obtain rfl : machine = w.machine := LawfulMachine.snapshot_error asked
  exact left

end Lawful

end Watched

end QuorumLab
