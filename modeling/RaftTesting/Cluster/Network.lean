import RaftTesting.Node.Host

namespace RaftTesting

/-- A set of hosts and all messages that were ever handed to the network: it may drop,
delay, reorder and duplicate, so any of them may be delivered at any time. -/
structure Cluster where
  hosts : SortedMap Host
  net : List Message := []

namespace Cluster

variable [Raftpb]

def enabled (c : Cluster) (i : Nat) : Event → Bool
  | .recv m => decide (m ∈ c.net) && decide (m.toId=i)
  | _ => true

/-- Event e happens at host i. -/
def act (c : Cluster) (i : Nat) (e : Event) : Except Panic Cluster :=
  match c.hosts.get? i with
  | none => .ok c
  | some h =>
    if c.enabled i e then do
      let (h,ms) ← h.act e
      .ok ⟨c.hosts.insert i h,c.net++ms⟩
    else .ok c

/-- Every host decides by the voters V. -/
def fixed (c : Cluster) (V : JointConfig) : Bool :=
  c.hosts.pairs.all (fun p => decide (p.2.rn.raft.prs.config.voters=V))

omit [Raftpb] in
theorem voters_of_fixed {c : Cluster} {V : JointConfig} {i : Nat} {H : Host}
    (hf : c.fixed V=true) (hH : c.hosts.get? i=some H) : H.rn.raft.prs.config.voters=V := by
  have hall := List.all_eq_true.mp hf (i,H) (SortedMap.mem_pairs hH)
  exact of_decide_eq_true hall

/-- The cluster after a schedule of events, as long as no host panics and the voters
stay V. -/
def play (V : JointConfig) (c : Cluster) : List (Nat × Event) → Option Cluster
  | [] => some c
  | (i,e)::es =>
    match c.act i e with
    | .error _ => none
    | .ok c => if c.fixed V then c.play V es else none

theorem play_append {V : JointConfig} {c c' : Cluster} {es es' : List (Nat × Event)}
    (h : c.play V es=some c') : c.play V (es++es')=c'.play V es' := by
  induction es generalizing c with
  | nil =>
    cases h
    rfl
  | cons e es ih =>
    obtain ⟨i,e⟩ := e
    rw [List.cons_append]
    simp only [play] at h ⊢
    split at h
    · cases h
    · split_ifs at h ⊢
      exact ih h

end Cluster

end RaftTesting
