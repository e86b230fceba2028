import RaftTesting.Quorum.Joint
import RaftTesting.Tracker.Progress

namespace RaftTesting

/-- tracker.Config; learners and learnersNext are maps that may be nil. -/
structure TrackerConfig where
  voters : JointConfig
  autoLeave : Bool
  learners : Option IdSet
  learnersNext : Option IdSet
  deriving DecidableEq

/-- Clone copies the maps and leaves AutoLeave at its zero value. -/
def TrackerConfig.clone (c : TrackerConfig) : TrackerConfig :=
  { voters := c.voters, autoLeave := false, learners := c.learners, learnersNext := c.learnersNext }

abbrev ProgressMap := SortedMap Progress

structure ProgressTracker where
  config : TrackerConfig
  progress : ProgressMap
  votes : SortedMap Bool
  maxInflight : Nat
  deriving DecidableEq

namespace ProgressTracker

def makeProgressTracker (maxInflight : Nat) : ProgressTracker where
  config := ⟨⟨some ∅,none⟩,false,none,none⟩
  progress := ∅
  votes := ∅
  maxInflight := maxInflight

def confState (p : ProgressTracker) : ConfState where
  voters := MajorityConfig.slice p.config.voters.incoming
  votersOutgoing := MajorityConfig.slice p.config.voters.outgoing
  learners := MajorityConfig.slice p.config.learners
  learnersNext := MajorityConfig.slice p.config.learnersNext
  autoLeave := p.config.autoLeave

def isSingleton (p : ProgressTracker) : Bool :=
  MajorityConfig.len p.config.voters.incoming=1 && MajorityConfig.len p.config.voters.outgoing=0

/-- matchAckIndexer. -/
def ackedIndex (p : ProgressTracker) (id : Nat) : Option Nat :=
  (p.progress.get? id).map (·.matchIndex)

def committed (p : ProgressTracker) : Nat := p.config.voters.committedIndex p.ackedIndex

def quorumActive (p : ProgressTracker) : Bool :=
  let votes := p.progress.keys.foldl (fun (votes : SortedMap Bool) id =>
    match p.progress.get? id with
    | some pr => if pr.isLearner then votes else votes.insert id pr.recentActive
    | none => votes) ∅
  p.config.voters.voteResult votes=.voteWon

def resetVotes (p : ProgressTracker) : ProgressTracker := { p with votes := ∅ }

def recordVote (p : ProgressTracker) (id : Nat) (v : Bool) : ProgressTracker :=
  match p.votes.get? id with
  | some _ => p
  | none => { p with votes := p.votes.insert id v }

theorem recordVote_frame (p : ProgressTracker) (id : Nat) (v : Bool) :
    (p.recordVote id v).config=p.config ∧ (p.recordVote id v).progress=p.progress := by
  unfold recordVote
  split <;> exact ⟨rfl,rfl⟩

/-- Only the result of TallyVotes is used; the two counts go to the logger. -/
def tallyVotes (p : ProgressTracker) : VoteResult := p.config.voters.voteResult p.votes

def setProgress (p : ProgressTracker) (id : Nat) (pr : Progress) : ProgressTracker :=
  { p with progress := p.progress.insert id pr }

end ProgressTracker

end RaftTesting
