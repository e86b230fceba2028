import Mathlib.Logic.Function.Basic
import RaftTesting.Consensus.Log

namespace RaftTesting.Consensus

/-- A node that only waits counts as a follower, whatever it tries to find out. -/
inductive Role where
  | follower
  | candidate
  | leader
  deriving DecidableEq

@[ext] structure Node (E : Type) where
  term : Nat
  vote : Option Nat
  role : Role
  log : List E
  commit : Nat
  votes : Nat → Prop
  matched : Nat → Nat

/-- What all nodes start from. -/
structure Base (E : Type) [Termed E] where
  log : List E
  term : Nat
  bound : ∀ k, termAt log k≤term
  pos : ∀ k, 0<k → k≤log.length → 0<termAt log k
  sorted : ∀ j k, j≤k → k≤log.length → termAt log j≤termAt log k

/-- Everything that has happened and stays true: the votes cast, the logs that
candidates stood with, the leader of each term with the log it was elected with and
the log it has now, who elected it, how far each node has acknowledged each leader,
and how far each leader has committed on whose word. -/
structure Hist (E : Type) where
  voted : Nat → Nat → Nat → Prop
  cand : Nat → Nat → Option (List E)
  lead : Nat → Option Nat
  elog : Nat → List E
  llog : Nat → List E
  electors : Nat → Nat → Prop
  ack : Nat → Nat → Nat
  comm : Nat → Nat
  ackers : Nat → Nat → Prop

namespace Hist

variable {E : Type}

def init [Termed E] (B : Base E) : Hist E where
  voted := fun _ _ _ => False
  cand := fun _ _ => none
  lead := fun _ => none
  elog := fun _ => []
  llog := fun T => if T≤B.term then B.log else []
  electors := fun _ _ => False
  ack := fun _ _ => 0
  comm := fun T => if T=B.term then B.log.length else 0
  ackers := fun _ _ => False

def vote (h : Hist E) (T v c : Nat) : Hist E :=
  { h with voted := fun T' v' c' => h.voted T' v' c' ∨ (T'=T ∧ v'=v ∧ c'=c) }

def nominate (h : Hist E) (T c : Nat) (l : List E) : Hist E :=
  { h with cand := fun T' c' => if T'=T ∧ c'=c then some l else h.cand T' c' }

def stand (h : Hist E) (T i : Nat) (l : List E) : Hist E := (h.nominate T i l).vote T i i

def ackTo (h : Hist E) (T p k : Nat) : Hist E :=
  { h with ack := fun T' p' => if T'=T ∧ p'=p then max (h.ack T' p') k else h.ack T' p' }

def crown (h : Hist E) (T i : Nat) (l : List E) (V : Nat → Prop) : Hist E :=
  { h with
    lead := Function.update h.lead T (some i)
    elog := Function.update h.elog T l
    llog := Function.update h.llog T l
    electors := Function.update h.electors T V }

def win (h : Hist E) (T i : Nat) (l : List E) (V : Nat → Prop) : Hist E :=
  (h.crown T i l V).ackTo T i l.length

def grow (h : Hist E) (T : Nat) (l : List E) : Hist E :=
  { h with llog := Function.update h.llog T l }

def extend (h : Hist E) (T i : Nat) (l : List E) : Hist E := (h.grow T l).ackTo T i l.length

def commit (h : Hist E) (T k : Nat) (A : Nat → Prop) : Hist E :=
  { h with
    comm := Function.update h.comm T k
    ackers := Function.update h.ackers T A }

/-- A commit index that a leader of term T may announce. -/
def CommitOk (h : Hist E) (T c : Nat) : Prop := ∃ T', T'≤T ∧ c≤h.comm T'

end Hist

/-- The steps of node i. Elections and commits rest on groups of nodes that Q admits. A
winner is the first of its term and has all that earlier leaders have committed; what a
leader commits, every later leader was elected with. -/
inductive Act {E : Type} [Termed E] (B : Base E) (Q : (Nat → Prop) → Prop) (i : Nat) :
    Hist E → Node E → Hist E → Node E → Prop
  | adopt {h n t vs ms} : n.term<t → Act B Q i h n h { n with
      term := t, vote := none, role := .follower, votes := vs, matched := ms }
  | rest {h n vs ms} : Act B Q i h n h { n with role := .follower, votes := vs, matched := ms }
  | stand {h n ms} : n.role≠.leader → Act B Q i h n (h.stand (n.term+1) i n.log) { n with
      term := n.term+1
      vote := some i
      role := .candidate
      votes := fun _ => False
      matched := ms }
  | tally {h n vs ms} : n.role=.candidate → (∀ j, vs j → n.votes j ∨ h.voted n.term j i ∨ j=i) →
      Act B Q i h n h { n with votes := vs, matched := ms }
  | win {h n V vs ms} : n.role=.candidate → Q V → (∀ v, V v → n.votes v) →
      h.lead n.term=none → (∀ T, T<n.term → Covers (h.comm T) n.log (h.llog T)) →
      (∀ j, j≠i → ms j=0) → ms i≤n.log.length →
      Act B Q i h n (h.win n.term i n.log V) { n with role := .leader, votes := vs, matched := ms }
  | extend {h n es ms} : n.role=.leader → (∀ e ∈ es, termOf e=n.term) →
      (∀ j, j≠i → ms j≤n.matched j) → ms i≤(n.log++es).length →
      Act B Q i h n (h.extend n.term i (n.log++es)) { n with log := n.log++es, matched := ms }
  | commit {h n k A} : n.role=.leader → n.commit<k → k≤n.log.length → termAt n.log k=n.term →
      Q A → (∀ v, A v → k≤n.matched v) →
      (∀ T, n.term<T → (h.lead T).isSome → Covers k (h.elog T) (h.llog n.term)) →
      Act B Q i h n (h.commit n.term k A) { n with commit := k }
  | track {h n vs ms} : n.role=.leader →
      (∀ j, ms j≤n.matched j ∨ ms j≤h.ack n.term j) →
      Act B Q i h n h { n with votes := vs, matched := ms }
  | vote {h n c l} : h.cand n.term c=some l → n.vote=none ∨ n.vote=some c →
      UpToDate l n.log → Act B Q i h n (h.vote n.term i c) { n with vote := some c }
  | accept {h n m c l} : n.role=.follower → (h.lead n.term).isSome →
      m≤(h.llog n.term).length → h.CommitOk n.term c →
      (Covers m n.log (h.llog n.term) ∧ l=n.log ∨
        ¬Covers m n.log (h.llog n.term) ∧ l=(h.llog n.term).take m) →
      Act B Q i h n (h.ackTo n.term i m) { n with log := l, commit := max n.commit (min c m) }
  | stale {h n} : n.role=.follower → (h.lead n.term).isSome →
      Act B Q i h n (h.ackTo n.term i n.commit) n
  | beat {h n c} : n.role=.follower → c≤h.ack n.term i → h.CommitOk n.term c →
      Act B Q i h n h { n with commit := max n.commit c }

end RaftTesting.Consensus
