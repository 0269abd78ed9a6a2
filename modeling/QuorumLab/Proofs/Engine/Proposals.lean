import QuorumLab.Proofs.Engine.Tickets

/-!
# What proposals are told

A record is kept of the commands that were accepted, of the entries they were put into the
log as, and of whether the node has led without a break. What a driver answers is judged
by that record and by the calls that its machine has had.
-/

namespace QuorumLab

/-- A machine that remembers which commands it was given, at which index. -/
structure Traced (μ : Type) where
  machine : μ
  calls : List (Nat × Bytes) := []

instance {μ : Type} [Machine μ] : Machine (Traced μ) where
  apply index command t :=
    match Machine.apply index command t.machine with
    | .done machine => .done { machine, calls := t.calls ++ [(index, command)] }
    | .held => .held
    | .fault f => .fault f
  snapshot t :=
    match Machine.snapshot t.machine with
    | .ok (data, machine) => .ok (data, { t with machine })
    | .error s => .error (s.map fun machine => { t with machine })
  restore data t :=
    match Machine.restore data t.machine with
    | .ok machine => .ok { t with machine }
    | .error s => .error (s.map fun machine => { t with machine })

/-- How a node has led since it last looked at its role. -/
inductive Reign where
  | none
  | leads (term : Nat)
  | past (term : Nat)
  deriving Repr, DecidableEq

namespace Reign

def term? : Reign → Option Nat
  | none => .none
  | leads t | past t => some t

/-- The term in which the node does not lead any more. -/
def lost? : Reign → Option Nat
  | past t => some t
  | none | leads _ => .none

/-- The reign of a node that is seen in a role. -/
def next (r : Reign) (role : Role) (term : Nat) : Reign :=
  match r with
  | none => if role = .leader then leads term else none
  | leads t => if role = .leader then leads t else past t
  | past t => past t

/-- Leadership is not regained once it is lost. -/
def Allows (r : Reign) (role : Role) (term : Nat) : Prop :=
  role = .leader → r = leads term ∨ r = none

instance (r : Reign) (role : Role) (term : Nat) : Decidable (r.Allows role term) :=
  inferInstanceAs (Decidable (_ → _))

theorem next_leader {r : Reign} {role : Role} {term : Nat} (allowed : r.Allows role term)
    (leader : role = .leader) : r.next role term = leads term := by
  rcases allowed leader with rfl | rfl <;> simp [next, leader]

theorem next_other {r : Reign} {role : Role} {term t : Nat} (other : role ≠ .leader) :
    r.next role term ≠ leads t := by
  cases r <;> simp [next, other]

theorem next_term? {r : Reign} {role : Role} {term t : Nat} (reigned : r.term? = some t) :
    (r.next role term).term? = some t := by
  cases r with
  | none => cases reigned
  | past u => exact reigned
  | leads u =>
    rw [← reigned, next]
    split <;> rfl

theorem lost?_of_term? {r : Reign} {t : Nat} (reigned : r.term? = some t) (led : r ≠ leads t) :
    r.lost? = some t := by
  cases r with
  | none => cases reigned
  | past u => exact reigned
  | leads u =>
    cases reigned
    exact absurd rfl led

end Reign

/-- No two of the entries have the same index and term. -/
def Compatible (entries : List Entry) : Prop :=
  ∀ x ∈ entries, ∀ y ∈ entries, x.index = y.index → x.term = y.term → x = y

instance (entries : List Entry) : Decidable (Compatible entries) :=
  inferInstanceAs (Decidable (∀ x ∈ entries, ∀ y ∈ entries, _))

theorem Compatible.mono {entries fewer : List Entry} (h : Compatible entries)
    (sub : ∀ x ∈ fewer, x ∈ entries) : Compatible fewer := by
  intro x hx y hy
  exact h x (sub x hx) y (sub y hy)

/-- What has happened to the commands of an engine. -/
structure History where
  /-- The commands that were accepted, each with its ticket. -/
  accepted : List (Nat × Bytes) := []
  /-- The entries that commands were put into the log as, each with the ticket. -/
  put : List (Nat × Entry) := []
  /-- The entries that were handed out as committed. -/
  committed : List Entry := []
  reign : Reign := .none
  /-- The terms in which the node was seen not to lead any more. -/
  left : List Nat := []
  deriving Repr, DecidableEq

/-- The calls that the machine of a driver has had. -/
def Driver.calls {κ μ : Type} (d : Driver κ (Traced μ)) : List (Nat × Bytes) :=
  d.machine.machine.calls

namespace History

/-- The entries that exist, as far as is known here. -/
def known (h : History) : List Entry := h.put.map Prod.snd ++ h.committed

/-- The ticket is one of a command. -/
def Proposed (h : History) (n : Nat) : Prop := ∃ data, (n, data) ∈ h.accepted

/-- What may be answered to the command `data`: an index only once the machine was given it
there, a refusal only if it was never put into the log, a loss of leadership only if the term it
was put there in is over or another entry was committed in its place, and a shutdown only at the
end. -/
def Answers (h : History) (calls : List (Nat × Bytes)) (ended : Bool) (n : Nat) (data : Bytes) :
    Outcome → Prop
  | .ok (.index i) => (i, data) ∈ calls
  | .error (.notLeader _) | .error (.raft _) => ∀ x, (n, x) ∉ h.put
  | .error .leadershipLost => ∃ x, (n, x) ∈ h.put ∧
      (x.term ∈ h.left ∨ ∃ y ∈ h.committed, y.index = x.index ∧ y.term ≠ x.term)
  | .error .shutdown => ended = true
  | _ => False

variable {κ μ : Type}

/-- All that was answered so far is true, and no index was given away twice. -/
structure Told (h : History) (ended : Bool) (d : Driver κ (Traced μ)) : Prop where
  truthful : ∀ n o, (n, o) ∈ d.answers → ∀ data, (n, data) ∈ h.accepted →
    h.Answers d.calls ended n data o
  applied_le : ∀ n i, (n, .ok (.index i)) ∈ d.answers → h.Proposed n → i ≤ d.applied
  distinct : ∀ n k i, (n, .ok (.index i)) ∈ d.answers → (k, .ok (.index i)) ∈ d.answers →
    h.Proposed n → h.Proposed k → n = k

/-- What the record says of itself, when `issued` tickets have been given out. -/
structure Sound (h : History) (issued : Nat) : Prop where
  accepted_lt : ∀ n data, (n, data) ∈ h.accepted → n < issued
  accepted_once : ∀ n a b, (n, a) ∈ h.accepted → (n, b) ∈ h.accepted → a = b
  put : ∀ n x, (n, x) ∈ h.put → (n, x.data) ∈ h.accepted ∧ x.isCommand = true
  known : Compatible h.known

/-- A proposal waits for the entry that its command was put into the log as, in the term that
the node leads in or has led in since it last looked. -/
structure Follows [Core κ] (h : History) (d : Driver κ μ) : Prop where
  pending : ∀ q ∈ d.pending, ∃ x, (q.2.ticket, x) ∈ h.put ∧ x.index = q.1 ∧ x.term = q.2.term
  role : d.pending ≠ [] → d.role = .leader
  reign : ∀ q ∈ d.pending, h.reign.term? = some q.2.term
  leads : Core.role d.core = .leader → h.reign = .leads (Core.term d.core)
  deposed : Core.role d.core ≠ .leader → ∀ t, h.reign ≠ .leads t

/-- `h'` says of the commands what `h` says, and may know more of the protocol. -/
structure Extends (h h' : History) : Prop where
  accepted : h'.accepted = h.accepted
  put : h'.put = h.put
  committed : ∀ x ∈ h.committed, x ∈ h'.committed
  left : ∀ t ∈ h.left, t ∈ h'.left

theorem extends_reign (h : History) (reign : Reign) : h.Extends { h with reign } :=
  ⟨rfl, rfl, fun _ hx => hx, fun _ ht => ht⟩

theorem Sound.extend {h h' : History} {issued : Nat} (sound : h.Sound issued) (x : h.Extends h')
    (known : Compatible h'.known) : h'.Sound issued where
  accepted_lt n data hn := sound.accepted_lt n data (x.accepted ▸ hn)
  accepted_once n a b ha hb := sound.accepted_once n a b (x.accepted ▸ ha) (x.accepted ▸ hb)
  put n y hn := by
    rw [x.accepted]
    exact sound.put n y (x.put ▸ hn)
  known := known

theorem known_of_put {h : History} {n : Nat} {x : Entry} (put : (n, x) ∈ h.put) : x ∈ h.known :=
  List.mem_append_left _ (List.mem_map.mpr ⟨_, put, rfl⟩)

section Told

variable {h h' : History} {ended ended' : Bool} {d d' : Driver κ (Traced μ)}
variable {calls calls' : List (Nat × Bytes)} {n : Nat} {data : Bytes} {o : Outcome}

/-- What was true stays true: calls are added, the record grows, and an engine ends for good. -/
theorem Answers.mono (answer : h.Answers calls ended n data o) (more : ∀ c ∈ calls, c ∈ calls')
    (put : ∀ x, (n, x) ∈ h'.put ↔ (n, x) ∈ h.put) (committed : ∀ x ∈ h.committed, x ∈ h'.committed)
    (left : ∀ t ∈ h.left, t ∈ h'.left) (still : ended = true → ended' = true) :
    h'.Answers calls' ended' n data o := by
  cases o with
  | ok a =>
    cases a with
    | index i => exact more _ answer
    | membership m => exact answer
  | error f =>
    cases f with
    | notLeader _ | raft _ =>
      intro x hx
      exact answer x ((put x).mp hx)
    | leadershipLost =>
      obtain ⟨x, hx, lost | ⟨y, hy, replaced⟩⟩ := answer
      · exact ⟨x, (put x).mpr hx, Or.inl (left _ lost)⟩
      · exact ⟨x, (put x).mpr hx, Or.inr ⟨y, committed y hy, replaced⟩⟩
    | shutdown => exact still answer
    | _ => exact answer

/-- Further answers that are true and give away no index. -/
theorem Told.append {new : List (Nat × Outcome)} (told : h.Told ended d)
    (answers : d'.answers = d.answers ++ new) (applied : d.applied ≤ d'.applied)
    (more : ∀ c ∈ d.calls, c ∈ d'.calls) (still : ended = true → ended' = true)
    (truthful : ∀ n o, (n, o) ∈ new → ∀ data, (n, data) ∈ h.accepted →
      h.Answers d'.calls ended' n data o ∧ ∀ i, o ≠ .ok (.index i)) : h.Told ended' d' := by
  have old : ∀ n i, (n, .ok (.index i)) ∈ d'.answers → h.Proposed n →
      (n, .ok (.index i)) ∈ d.answers := by
    intro n i hn ⟨data, proposed⟩
    rw [answers] at hn
    rcases List.mem_append.mp hn with hn | hn
    · exact hn
    · exact absurd rfl ((truthful n _ hn data proposed).2 i)
  constructor
  case truthful =>
    intro n o hn data accepted
    rw [answers] at hn
    rcases List.mem_append.mp hn with hn | hn
    · exact (told.truthful n o hn data accepted).mono more (fun _ => Iff.rfl) (fun _ hx => hx)
        (fun _ ht => ht) still
    · exact (truthful n o hn data accepted).1
  case applied_le =>
    intro n i hn proposed
    have := told.applied_le n i (old n i hn proposed) proposed
    omega
  case distinct =>
    intro n k i hn hk first second
    exact told.distinct n k i (old n i hn first) (old k i hk second) first second

theorem Told.keep (told : h.Told ended d) (answers : d'.answers = d.answers)
    (applied : d.applied ≤ d'.applied) (more : ∀ c ∈ d.calls, c ∈ d'.calls) :
    h.Told ended d' :=
  told.append (by rw [answers, List.append_nil]) applied more id fun _ _ hn => by cases hn

/-- A longer record judges what was answered before as the shorter one did. -/
theorem Told.record (told : h.Told ended d)
    (accepted : ∀ n ∈ d.answered, ∀ data, (n, data) ∈ h'.accepted → (n, data) ∈ h.accepted)
    (put : ∀ n ∈ d.answered, ∀ x, (n, x) ∈ h'.put ↔ (n, x) ∈ h.put)
    (committed : ∀ x ∈ h.committed, x ∈ h'.committed) (left : ∀ t ∈ h.left, t ∈ h'.left) :
    h'.Told ended d := by
  have answered : ∀ n o, (n, o) ∈ d.answers → n ∈ d.answered := by
    intro n o hn
    exact List.mem_map.mpr ⟨_, hn, rfl⟩
  have proposed : ∀ n o, (n, o) ∈ d.answers → h'.Proposed n → h.Proposed n := by
    rintro n o hn ⟨data, proposed⟩
    exact ⟨data, accepted n (answered n o hn) data proposed⟩
  constructor
  case truthful =>
    intro n o hn data proposed
    have mine := answered n o hn
    have before := told.truthful n o hn data (accepted n mine data proposed)
    exact before.mono (fun _ hc => hc) (put n mine) committed left id
  case applied_le =>
    intro n i hn asked
    exact told.applied_le n i hn (proposed n _ hn asked)
  case distinct =>
    intro n k i hn hk first second
    exact told.distinct n k i hn hk (proposed n _ hn first) (proposed k _ hk second)

theorem Told.extend (told : h.Told ended d) (x : h.Extends h') : h'.Told ended d :=
  told.record (fun _ _ _ hd => x.accepted ▸ hd) (fun _ _ _ => by rw [x.put]) x.committed x.left

/-- An index that is given away for the first time, after the machine was given the command. -/
theorem Told.commit {n i : Nat} (told : h.Told ended d)
    (answers : d'.answers = d.answers ++ [(n, .ok (.index i))]) (ahead : d.applied < i)
    (applied : d'.applied = i) (more : ∀ c ∈ d.calls, c ∈ d'.calls)
    (called : ∀ data, (n, data) ∈ h.accepted → (i, data) ∈ d'.calls) : h.Told ended d' := by
  have fresh : ∀ k, (k, .ok (.index i)) ∈ d.answers → h.Proposed k → False := by
    intro k hk proposed
    have := told.applied_le k i hk proposed
    omega
  have cases : ∀ k o, (k, o) ∈ d'.answers → (k, o) ∈ d.answers ∨ k = n ∧ o = .ok (.index i) := by
    intro k o hk
    rw [answers] at hk
    rcases List.mem_append.mp hk with hk | hk
    · exact Or.inl hk
    · exact Or.inr (Prod.mk.inj (List.mem_singleton.mp hk))
  constructor
  case truthful =>
    intro k o hk data accepted
    rcases cases k o hk with old | ⟨rfl, rfl⟩
    · exact (told.truthful k o old data accepted).mono more (fun _ => Iff.rfl) (fun _ hx => hx)
        (fun _ ht => ht) id
    · exact called data accepted
  case applied_le =>
    intro k j hk proposed
    rcases cases k _ hk with old | ⟨rfl, same⟩
    · have := told.applied_le k j old proposed
      omega
    · cases same
      omega
  case distinct =>
    intro k l j hk hl first second
    rcases cases k _ hk with oldK | ⟨rfl, sameK⟩ <;> rcases cases l _ hl with oldL | ⟨rfl, sameL⟩
    · exact told.distinct k l j oldK oldL first second
    · cases sameL
      exact (fresh k oldK first).elim
    · cases sameK
      exact (fresh l oldL second).elim
    · rfl

end Told

section Statements

variable {κ μ : Type} [Core κ] {h h' : History} {d d' : Driver κ μ}

/-- Proposals only become fewer, and the reign goes on as the node is seen to lead. -/
theorem Follows.next (f : h.Follows d) (fewer : ∀ q ∈ d'.pending, q ∈ d.pending)
    (role : d'.role = d.role) (put : ∀ a ∈ h.put, a ∈ h'.put)
    (reign : h'.reign = h.reign.next (Core.role d'.core) (Core.term d'.core))
    (allowed : h.reign.Allows (Core.role d'.core) (Core.term d'.core)) : h'.Follows d' where
  pending q hq := by
    obtain ⟨x, hx, index, term⟩ := f.pending q (fewer q hq)
    exact ⟨x, put _ hx, index, term⟩
  role some := by
    rw [role]
    apply f.role
    intro empty
    rw [empty] at fewer
    exact some (List.eq_nil_iff_forall_not_mem.mpr fun q hq => List.not_mem_nil (fewer q hq))
  reign q hq := by
    rw [reign]
    exact Reign.next_term? (f.reign q (fewer q hq))
  leads leader := by rw [reign, Reign.next_leader allowed leader]
  deposed other t := by
    rw [reign]
    exact Reign.next_other other

/-- The record when a node has looked at its role. -/
def noteObserve (h : History) (d : Driver κ μ) : History :=
  { h with
    reign := Reign.none.next (Core.role d.core) (Core.term d.core)
    left := h.left ++ h.reign.lost?.toList }

theorem extends_noteObserve (h : History) (d : Driver κ μ) : h.Extends (h.noteObserve d) :=
  ⟨rfl, rfl, fun _ hx => hx, fun _ ht => List.mem_append_left _ ht⟩

/-- When a node looks at its role, the proposals of a reign that is over fail and a new reign may
begin. -/
theorem Follows.observe (f : h.Follows d) : (h.noteObserve d).Follows d.observeRole := by
  have begun : Core.role d.core = .leader →
      (h.noteObserve d).reign = .leads (Core.term d.core) := by
    intro leader
    exact if_pos leader
  have deposed : Core.role d.core ≠ .leader → ∀ t, (h.noteObserve d).reign ≠ .leads t := by
    intro other t
    exact Reign.next_other (r := .none) other
  have cleared : ∀ d' : Driver κ μ, d'.pending = [] → d'.core = d.core →
      (h.noteObserve d).Follows d' := by
    intro d' empty core
    have none : ∀ q, q ∉ d'.pending := by simp [empty]
    constructor
    case pending =>
      intro q hq
      exact absurd hq (none q)
    case role =>
      intro some
      exact absurd empty some
    case reign =>
      intro q hq
      exact absurd hq (none q)
    case leads =>
      rw [core]
      exact begun
    case deposed =>
      rw [core]
      exact deposed
  rcases d.observeRole_cases with ⟨same, eq⟩ | ⟨-, -, eq⟩ | ⟨-, other, eq⟩ <;> rw [eq]
  · refine ⟨f.pending, f.role, ?_, begun, deposed⟩
    intro q hq
    have leader : Core.role d.core = .leader := same.trans (f.role (List.ne_nil_of_mem hq))
    rw [begun leader, ← f.leads leader]
    exact f.reign q hq
  · exact cleared _ rfl rfl
  · exact cleared _ (Decidable.not_not.mp fun some => other (f.role some)) rfl

end Statements

end History

namespace Traced

variable {μ : Type} [Machine μ] {t t' : Traced μ} {data : Bytes} {s : Setback (Traced μ)}

theorem calls_snapshot (taken : Machine.snapshot t = .ok (data, t')) : t'.calls = t.calls := by
  simp only [Machine.snapshot] at taken
  split at taken <;> cases taken
  rfl

theorem calls_snapshot_error (refused : Machine.snapshot t = .error s) : s.left.calls = t.calls := by
  simp only [Machine.snapshot] at refused
  split at refused <;> cases refused
  rfl

theorem calls_restore (restored : Machine.restore data t = .ok t') : t'.calls = t.calls := by
  simp only [Machine.restore] at restored
  split at restored <;> cases restored
  rfl

theorem calls_restore_error (refused : Machine.restore data t = .error s) :
    s.left.calls = t.calls := by
  simp only [Machine.restore] at refused
  split at refused <;> cases refused
  rfl

end Traced

theorem Watched.calls_apply {μ : Type} [Machine μ] {m m' : Watched (Traced μ)} {index : Nat}
    {command : Bytes} (done : m.apply index command = .done m') :
    m'.machine.calls = m.machine.calls ++ [(index, command)] := by
  cases hm : Machine.apply index command m.machine.machine with
  | done machine =>
    simp only [Watched.apply, Machine.apply, hm, Applied.done.injEq] at done
    rw [← done]
  | held => simp [Watched.apply, Machine.apply, hm] at done
  | fault f => simp [Watched.apply, Machine.apply, hm] at done

namespace Driver

variable {κ μ ω : Type} [Machine μ] {d d' : Driver κ (Traced μ)}

theorem calls_takeSnapshot (d : Driver κ (Traced μ)) : d.takeSnapshot.2.calls = d.calls := by
  rcases d.takeSnapshot_cases with ⟨machine, same | ⟨s, refused, rfl⟩, left⟩ |
    ⟨term, data, machine, -, -, taken, after⟩
  · rw [left, same]
  · obtain ⟨machine, refused, same⟩ := Watched.snapshot_error refused
    rw [left, same]
    exact Traced.calls_snapshot_error refused
  · have kept : machine.machine.calls = d.calls :=
      Traced.calls_snapshot (Watched.snapshot_ok taken).1
    dsimp only at after
    split at after <;> rw [after] <;> exact kept

theorem calls_checkPolicy (d : Driver κ (Traced μ)) (now later : Nat) :
    (d.checkPolicy now later).calls = d.calls := by
  rcases d.checkPolicy_cases now later with early | noted | taken
  · rw [early]
  · rw [noted]
    rfl
  · rw [taken]
    exact calls_takeSnapshot { d with lastCheck := later }

theorem calls_restore {s : Snapshot} (done : d.restore s = .ok d') : d'.calls = d.calls := by
  obtain ⟨machine, restored, rfl⟩ := restore_ok done
  exact Traced.calls_restore (Watched.restore_ok restored).1

/-- A statement that fails makes no call. -/
theorem calls_of_stopped [Core κ] [Carrier ω] {w w' : ω} {a : Act} {f : Failure}
    (stop : d.perform w a = .stopped f (d', w')) : d'.calls = d.calls := by
  rcases (perform_stopped stop).2 with ⟨s, -, refused⟩ | ⟨batch, -, refused⟩
  · obtain ⟨machine, refused, left⟩ := restore_error refused
    cases left
    exact Traced.calls_restore_error refused
  · rw [append_error refused]

/-- A statement that neither takes in a command nor answers one makes no call. -/
theorem calls_of_plain [Core κ] [Carrier ω] {w w' : ω} {a : Act} (plain : a.Plain)
    (done : d.perform w a = .done (d', w')) : d'.calls = d.calls := by
  cases a with
  | handle | apply | observe => exact absurd plain not_false
  | policy now later =>
    cases done
    exact d.calls_checkPolicy now later
  | restore s =>
    obtain ⟨_, hr, he⟩ := Effect.map_ofSetback_done done
    cases he
    exact calls_restore hr
  | append batch =>
    obtain ⟨_, ha, he⟩ := Effect.map_ofSetback_done done
    cases he
    rcases append_cases d batch with ⟨log, -, taken⟩ | ⟨_, -, refused⟩
    · rw [taken] at ha
      cases ha
      rfl
    · rw [refused] at ha
      cases ha
  | setHardState | setCommit =>
    cases done
    rfl
  | receive | tick | send | settle | publish =>
    rw [calls, calls, (alike_of_quiet (by trivial) done).machine]

/-- Applying an entry calls the machine just if it is new and a command. -/
theorem calls_apply_eq {e : Entry} (done : d.apply e = .done d') : d'.calls = d.calls ++
    if d.applied < e.index ∧ e.isCommand = true then [(e.index, e.data)] else [] := by
  rcases apply_cases done with ⟨old, rfl⟩ | ⟨new, machine, rfl, given⟩
  · rw [if_neg fun due => Nat.not_lt.mpr old due.1, List.append_nil]
  · have kept : (({ d with machine } : Driver κ (Traced μ)).noteApplied e).calls =
        machine.machine.calls := by
      rw [calls, (alike_noteApplied _ e).machine]
    rw [kept]
    cases command : e.isCommand with
    | true =>
      rw [if_pos command] at given
      rw [Watched.calls_apply given, if_pos ⟨new, rfl⟩]
      rfl
    | false =>
      rw [if_neg (by simp [command])] at given
      rw [given, if_neg fun due => Bool.false_ne_true due.2, List.append_nil]
      rfl

theorem calls_apply {e : Entry} (done : d.apply e = .done d') (new : d.applied < e.index) :
    (∀ c ∈ d.calls, c ∈ d'.calls) ∧ (e.isCommand = true → (e.index, e.data) ∈ d'.calls) := by
  rw [calls_apply_eq done]
  constructor
  · intro c hc
    exact List.mem_append_left _ hc
  · intro command
    rw [if_pos ⟨new, command⟩]
    exact List.mem_append_right _ (List.mem_singleton.mpr rfl)

end Driver

namespace History

variable {κ μ : Type} [Core κ] {h : History} {d d' : Driver κ (Traced μ)} {ended : Bool}
variable {issued n : Nat} {data : Bytes}

/-- Applying a committed entry answers whoever waits for it, and truthfully: with its index if it
is the entry of the command, which the machine has then been given. -/
theorem Told.apply [Machine μ] {e : Entry} (told : h.Told ended d) (sound : h.Sound issued)
    (f : h.Follows d) (committed : e ∈ h.committed) (done : d.apply e = .done d') :
    h.Told ended d' ∧ (∀ q ∈ d'.pending, q ∈ d.pending) ∧ d'.role = d.role := by
  rcases Nat.lt_or_ge d.applied e.index with new | old
  · obtain ⟨more, called⟩ := Driver.calls_apply done new
    rcases Driver.apply_cases done with ⟨old, -⟩ | ⟨-, machine, rfl, -⟩
    · omega
    rcases Driver.noteApplied_cases ({ d with machine } : Driver κ (Traced μ)) e with
      ⟨-, eq⟩ | ⟨p, o, waits, eq, own | replaced⟩ <;> rw [eq] at more called ⊢
    · exact ⟨told.keep rfl (Nat.le_of_lt new) more, fun _ hq => hq, rfl⟩
    all_goals
      obtain ⟨before, after, split, -⟩ := List.lookup_eq_some_iff.mp waits
      have waiting : (e.index, p) ∈ d.pending := by
        rw [show d.pending = before ++ (e.index, p) :: after from split]
        exact List.mem_append_right _ List.mem_cons_self
      obtain ⟨x, hx, index, term⟩ := f.pending _ waiting
      refine ⟨?_, fun q hq => (List.mem_filter.mp hq).1, rfl⟩
    · obtain ⟨same, rfl⟩ := own
      obtain ⟨accepted, command⟩ := sound.put _ x hx
      have known : e ∈ h.known := List.mem_append_right _ committed
      obtain rfl : x = e := sound.known x (known_of_put hx) e known index (term.trans same)
      refine told.commit rfl new rfl more ?_
      intro data proposed
      rw [sound.accepted_once _ _ _ proposed accepted]
      exact called command
    · obtain ⟨other, rfl⟩ := replaced
      refine told.append rfl (Nat.le_of_lt new) more id ?_
      intro n o hn data _
      obtain ⟨rfl, rfl⟩ := Prod.mk.inj (List.mem_singleton.mp hn)
      refine ⟨⟨x, hx, Or.inr ⟨e, committed, index.symm, ?_⟩⟩, fun i same => by cases same⟩
      intro same
      exact other (term.symm.trans same.symm)
  · rcases Driver.apply_cases done with ⟨-, rfl⟩ | ⟨new, -⟩
    · exact ⟨told, fun _ hq => hq, rfl⟩
    · omega

/-- Looking at the role fails the proposals of a term that the node leads in no more. -/
theorem Told.observe (told : h.Told ended d) (f : h.Follows d) :
    (h.noteObserve d).Told ended d.observeRole := by
  have kept : (h.noteObserve d).Told ended d := told.extend (h.extends_noteObserve d)
  rcases d.observeRole_cases with ⟨-, eq⟩ | ⟨changed, led, eq⟩ | ⟨-, -, eq⟩ <;> rw [eq]
  · exact kept
  · refine kept.append rfl (Nat.le_refl _) (fun _ hc => hc) id ?_
    intro n o hn _ _
    obtain ⟨q, hq, same⟩ := List.mem_map.mp hn
    obtain ⟨rfl, rfl⟩ := Prod.mk.inj same
    obtain ⟨x, hx, -, term⟩ := f.pending q hq
    have past : h.reign.lost? = some q.2.term :=
      Reign.lost?_of_term? (f.reign q hq) (f.deposed (led ▸ changed) _)
    refine ⟨⟨x, hx, Or.inl ?_⟩, fun i same => by cases same⟩
    rw [term, noteObserve, past]
    exact List.mem_append_right _ (List.mem_singleton.mpr rfl)
  · exact kept.keep rfl (Nat.le_refl _) fun _ hc => hc

/-- The entry that a command becomes at the end of the log. -/
def entryFor (d : Driver κ μ) (data : Bytes) : Entry where
  term := Core.term d.core
  index := Core.lastIndex d.core d.shelf + 1
  data := data
  context := commandMark

/-- A leader that takes a command puts it at the end of its log, in its term, where there was no
entry of that term before. One that refuses it puts nothing there. -/
def Appends (h : History) (d : Driver κ μ) (data : Bytes) :
    Except Fault (Except Refusal Unit × κ) → Prop
  | .ok (.ok (), core) =>
    Core.lastIndex core d.shelf = Core.lastIndex d.core d.shelf + 1 ∧
      Core.term core = Core.term d.core ∧
      ∀ x ∈ h.known, x.index = (entryFor d data).index → x.term ≠ (entryFor d data).term
  | .ok (.error _, core) => Core.lastIndex core d.shelf = Core.lastIndex d.core d.shelf
  | .error _ => True

instance (h : History) (d : Driver κ μ) (data : Bytes) : ∀ r, Decidable (h.Appends d data r)
  | .ok (.ok (), _) => inferInstanceAs (Decidable (_ ∧ _ ∧ ∀ x ∈ h.known, _))
  | .ok (.error _, _) => inferInstanceAs (Decidable (_ = _))
  | .error _ => isTrue trivial

def AdmitsPropose (h : History) (d : Driver κ μ) (data : Bytes) : Prop :=
  Core.role d.core = .leader → h.Appends d data (Core.propose d.shelf commandMark data d.core)

instance (h : History) (d : Driver κ μ) (data : Bytes) : Decidable (h.AdmitsPropose d data) :=
  inferInstanceAs (Decidable (_ → _))

/-- The record when `d` has taken in a command and become `d'`: the command has been put into the
log if that has become longer. -/
def notePropose (h : History) (n : Nat) (data : Bytes) (d d' : Driver κ μ) : History :=
  { h with
    put := if Core.lastIndex d'.core d'.shelf = Core.lastIndex d.core d.shelf then h.put
      else h.put ++ [(n, entryFor d data)]
    reign := h.reign.next (Core.role d'.core) (Core.term d'.core) }

theorem Sound.put_entry {x : Entry} {reign : Reign} (sound : h.Sound issued)
    (accepted : (n, x.data) ∈ h.accepted) (command : x.isCommand = true)
    (fresh : ∀ y ∈ h.known, y.index = x.index → y.term ≠ x.term) :
    History.Sound { h with put := h.put ++ [(n, x)], reign } issued where
  accepted_lt := sound.accepted_lt
  accepted_once := sound.accepted_once
  put := by
    intro m y hm
    rcases List.mem_append.mp hm with old | new
    · exact sound.put m y old
    · obtain ⟨rfl, rfl⟩ := Prod.mk.inj (List.mem_singleton.mp new)
      exact ⟨accepted, command⟩
  known := by
    have cases : ∀ y ∈ (h.put ++ [(n, x)]).map Prod.snd ++ h.committed, y ∈ h.known ∨ y = x := by
      intro y hy
      rw [List.map_append, List.append_assoc] at hy
      rcases List.mem_append.mp hy with old | hy
      · exact Or.inl (List.mem_append_left _ old)
      · rcases List.mem_append.mp hy with new | old
        · exact Or.inr (List.mem_singleton.mp new)
        · exact Or.inl (List.mem_append_right _ old)
    intro y hy z hz index term
    rcases cases y hy with oldY | rfl <;> rcases cases z hz with oldZ | rfl
    · exact sound.known y oldY z oldZ index term
    · exact absurd term (fresh y oldY index)
    · exact absurd term.symm (fresh z oldZ index.symm)
    · rfl

/-- A command that did not make the log longer is not in it. -/
theorem extends_notePropose {ν : Type} {d d' : Driver κ ν}
    (log : Core.lastIndex d'.core d'.shelf = Core.lastIndex d.core d.shelf) :
    h.Extends (h.notePropose n data d d') :=
  ⟨rfl, if_pos log, fun _ hx => hx, fun _ ht => ht⟩

/-- A refusal is true of a command that is not in the log, and changes nothing for others. -/
theorem refuse_spec {failure : Failure} (told : h.Told ended d) (sound : h.Sound issued)
    (f : h.Follows d) (accepted : (n, data) ∈ h.accepted)
    (allowed : h.reign.Allows (Core.role d'.core) (Core.term d'.core))
    (same : d' = ({ d with core := d'.core } : Driver κ (Traced μ)).answer n (.error failure))
    (log : Core.lastIndex d'.core d'.shelf = Core.lastIndex d.core d.shelf)
    (answer : h.Answers d.calls ended n data (.error failure)) :
    (h.notePropose n data d d').Sound issued ∧ (h.notePropose n data d d').Told ended d' ∧
      (h.notePropose n data d d').Follows d' := by
  have x : h.Extends (h.notePropose n data d d') := extends_notePropose log
  have known : (h.notePropose n data d d').known = h.known := by rw [History.known, x.put]; rfl
  have pending : d'.pending = d.pending := by rw [same]; rfl
  have role : d'.role = d.role := by rw [same]; rfl
  have told' : h.Told ended d' := by
    rw [same]
    refine told.append rfl (Nat.le_refl _) (fun _ hc => hc) id ?_
    intro k o hk data' accepted'
    obtain ⟨rfl, rfl⟩ := Prod.mk.inj (List.mem_singleton.mp hk)
    rw [sound.accepted_once _ _ _ accepted' accepted]
    exact ⟨answer, fun i same => by cases same⟩
  exact ⟨sound.extend x (known ▸ sound.known), told'.extend x,
    f.next (fun q hq => pending ▸ hq) role (fun a ha => x.put ▸ ha) rfl allowed⟩

/-- A command that is taken from the queue is refused and was never put into the log, or is put
there, where nobody else waits for it. -/
theorem propose_spec (told : h.Told ended d) (sound : h.Sound issued) (f : h.Follows d)
    (settled : Core.role d.core = .leader → d.role = .leader)
    (accepted : (n, data) ∈ h.accepted) (new : n ∉ d.answered) (unput : ∀ x, (n, x) ∉ h.put)
    (admits : h.AdmitsPropose d data)
    (allowed : h.reign.Allows (Core.role d'.core) (Core.term d'.core))
    (done : d.propose n data = .ok d') :
    (h.notePropose n data d d').Sound issued ∧ (h.notePropose n data d d').Told ended d' ∧
      (h.notePropose n data d d').Follows d' := by
  rcases Driver.propose_cases done with ⟨-, leader, rfl⟩ | ⟨leads, failure, core, refused, rfl⟩ |
    ⟨leads, core, taken, rfl⟩
  · exact refuse_spec told sound f accepted allowed rfl rfl unput
  · have log := admits leads
    rw [refused] at log
    exact refuse_spec told sound f accepted allowed rfl log unput
  · have moved := admits leads
    rw [taken] at moved
    obtain ⟨index, term, fresh⟩ := moved
    have reign := f.leads leads
    -- whoever waits for this index would have an entry of this term there
    have free : ∀ q ∈ d.pending, q.1 ≠ Core.lastIndex core d.shelf := by
      intro q hq same
      obtain ⟨x, hx, there, era⟩ := f.pending q hq
      have led := f.reign q hq
      rw [reign, Reign.term?, Option.some.injEq] at led
      exact fresh x (known_of_put hx) (there.trans (same.trans index)) (era.trans led.symm)
    obtain ⟨pending, eq, mine⟩ := Driver.enlist_free (d := { d with core })
      (p := { term := Core.term core, ticket := n }) free
    rw [eq] at allowed ⊢
    have put : (h.notePropose n data d { d with core, pending }).put =
        h.put ++ [(n, entryFor d data)] :=
      if_neg (by change Core.lastIndex core d.shelf ≠ _; omega)
    have noted : h.notePropose n data d { d with core, pending } = { h with
        put := h.put ++ [(n, entryFor d data)]
        reign := h.reign.next (Core.role core) (Core.term core) } := by rw [← put]; rfl
    rw [noted]
    have others : ∀ k ∈ d.answered, ∀ x,
        (k, x) ∈ h.put ++ [(n, entryFor d data)] ↔ (k, x) ∈ h.put := by
      intro k hk x
      constructor
      · intro hx
        rcases List.mem_append.mp hx with old | added
        · exact old
        · obtain ⟨rfl, -⟩ := Prod.mk.inj (List.mem_singleton.mp added)
          exact absurd hk new
      · exact List.mem_append_left _
    refine ⟨sound.put_entry accepted rfl fresh, ?_, ?_⟩
    · exact Told.keep (d := d) (told.record (fun _ _ _ hk => hk) others (fun _ hx => hx)
        fun _ ht => ht) rfl (Nat.le_refl _) fun _ hc => hc
    constructor
    case pending =>
      intro q hq
      rcases mine q hq with old | rfl
      · obtain ⟨x, hx, there, era⟩ := f.pending q old
        exact ⟨x, List.mem_append_left _ hx, there, era⟩
      · exact ⟨entryFor d data, List.mem_append_right _ (List.mem_singleton.mpr rfl),
          index.symm, term.symm⟩
    case role =>
      intro _
      exact settled leads
    case reign =>
      intro q hq
      apply Reign.next_term?
      rcases mine q hq with old | rfl
      · exact f.reign q old
      · rw [reign]
        exact congrArg some term.symm
    case leads =>
      intro leader
      exact Reign.next_leader allowed leader
    case deposed =>
      intro other t
      exact Reign.next_other other

end History

end QuorumLab
