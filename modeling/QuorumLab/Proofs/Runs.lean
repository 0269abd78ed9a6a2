/-!
# Runs

A run of a system is any sequence of events of which each is admitted where it happens.
-/

namespace QuorumLab

/-- What events do to a state, and which of them are admitted in it. -/
structure System (σ ε : Type) where
  admits : σ → ε → Prop
  after : σ → ε → σ

variable {σ ε : Type}

/-- The states that a run comes to. -/
inductive Reachable (S : System σ ε) (s₀ : σ) : σ → Prop
  | start : Reachable S s₀ s₀
  | event {s : σ} (v : ε) (before : Reachable S s₀ s) (admitted : S.admits s v) :
      Reachable S s₀ (S.after s v)

/-- What holds at the start and is kept by every event holds throughout. -/
theorem Reachable.invariant {S : System σ ε} {s₀ s : σ} {P : σ → Prop} (run : Reachable S s₀ s)
    (start : P s₀) (step : ∀ {s v}, P s → S.admits s v → P (S.after s v)) : P s := by
  induction run with
  | start => exact start
  | event v before admitted ih => exact step ih admitted

namespace System

variable (S : System σ ε)

/-- Whether each of a list of events is admitted where it happens. -/
def AdmitsAll : σ → List ε → Prop
  | _, [] => True
  | s, v :: rest => S.admits s v ∧ AdmitsAll (S.after s v) rest

instance decidableAdmitsAll [∀ s v, Decidable (S.admits s v)] :
    ∀ s vs, Decidable (S.AdmitsAll s vs)
  | _, [] => isTrue trivial
  | s, v :: rest =>
    haveI := decidableAdmitsAll (S.after s v) rest
    inferInstanceAs (Decidable (S.admits s v ∧ _))

/-- What a list of events leads to. -/
def play (s : σ) (vs : List ε) : σ := vs.foldl S.after s

variable {S} {s₀ s : σ}

theorem play_append (vs us : List ε) : S.play s (vs ++ us) = S.play (S.play s vs) us :=
  List.foldl_append

theorem admitsAll_append {vs us : List ε} :
    S.AdmitsAll s (vs ++ us) ↔ S.AdmitsAll s vs ∧ S.AdmitsAll (S.play s vs) us := by
  induction vs generalizing s with
  | nil => exact ⟨fun admitted => ⟨trivial, admitted⟩, And.right⟩
  | cons v vs ih =>
    rw [List.cons_append, AdmitsAll, AdmitsAll, ih, and_assoc]
    rfl

theorem reachable_play (before : Reachable S s₀ s) {vs : List ε} (admitted : S.AdmitsAll s vs) :
    Reachable S s₀ (S.play s vs) := by
  induction vs generalizing s with
  | nil => exact before
  | cons v vs ih => exact ih (.event v before admitted.1) admitted.2

/-- What every admitted event of some kind keeps, a run of such events keeps. -/
theorem play_invariant {P : σ → Prop} {Q : ε → Prop} (start : P s) {vs : List ε}
    (admitted : S.AdmitsAll s vs) (kind : ∀ v ∈ vs, Q v)
    (step : ∀ {s v}, P s → S.admits s v → Q v → P (S.after s v)) : P (S.play s vs) := by
  induction vs generalizing s with
  | nil => exact start
  | cons v vs ih =>
    exact ih (step start admitted.1 (kind v List.mem_cons_self)) admitted.2 fun u hu =>
      kind u (List.mem_cons_of_mem v hu)

end System

end QuorumLab
