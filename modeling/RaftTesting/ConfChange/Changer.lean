import RaftTesting.Tracker.Tracker

namespace RaftTesting

def nilAwareAdd (m : Option IdSet) (id : Nat) : Option IdSet := some ((m.getD ∅).add id)

def nilAwareDelete (m : Option IdSet) (id : Nat) : Option IdSet :=
  match m with
  | none => none
  | some s => if SortedMap.size (s.erase id)=0 then none else some (s.erase id)

/-- len((l - r) ∪ (r - l)). -/
def symdiff (l r : MajorityConfig) : Nat :=
  ((MajorityConfig.slice l).filter (fun id => !MajorityConfig.has r id)).length+
    ((MajorityConfig.slice r).filter (fun id => !MajorityConfig.has l id)).length

namespace TrackerConfig

def joint (cfg : TrackerConfig) : Bool := 0<MajorityConfig.len cfg.voters.outgoing

theorem joint_eq_false {cfg : TrackerConfig} (h : ¬cfg.joint=true) :
    MajorityConfig.len cfg.voters.outgoing=0 := by
  simp only [joint,decide_eq_true_eq] at h
  omega

/-- incoming(cfg.Voters)[id] = struct{}{}; the map is made by MakeProgressTracker and never nil. -/
def addIncoming (cfg : TrackerConfig) (id : Nat) : TrackerConfig :=
  { cfg with voters := { cfg.voters with incoming := nilAwareAdd cfg.voters.incoming id } }

def deleteIncoming (cfg : TrackerConfig) (id : Nat) : TrackerConfig :=
  { cfg with voters := { cfg.voters with
      incoming := cfg.voters.incoming.map (fun s => s.erase id) } }

end TrackerConfig

/-- A configuration with the progress of its members, as the Changer passes them along. -/
structure Tracked where
  cfg : TrackerConfig
  prs : ProgressMap
  deriving DecidableEq

namespace Tracked

def noProgress (t : Tracked) (id : Nat) : Bool := (t.prs.get? id).isNone

def isLearner (t : Tracked) (id : Nat) : Bool := ((t.prs.get? id).map (·.isLearner)).getD false

def checkProgress (t : Tracked) (ids : List Nat) : Except ConfErr Unit :=
  match ids.find? (fun id => t.noProgress id) with
  | some id => .error (.noProgress id)
  | none => .ok ()

def checkLearnersNext (t : Tracked) (id : Nat) : Except ConfErr Unit :=
  if !MajorityConfig.has t.cfg.voters.outgoing id then .error (.nextNotOutgoing id)
  else if t.isLearner id then .error (.nextMarkedLearner id)
  else .ok ()

def checkLearners (t : Tracked) (id : Nat) : Except ConfErr Unit :=
  if MajorityConfig.has t.cfg.voters.outgoing id then .error (.learnerInOutgoing id)
  else if MajorityConfig.has t.cfg.voters.incoming id then .error (.learnerInIncoming id)
  else if !t.isLearner id then .error (.learnerNotMarked id)
  else .ok ()

def checkNonJoint (t : Tracked) : Except ConfErr Unit :=
  if t.cfg.joint then .ok ()
  else if t.cfg.voters.outgoing≠none then .error .outgoingNotNil
  else if t.cfg.learnersNext≠none then .error .learnersNextNotNil
  else if t.cfg.autoLeave then .error .autoLeaveNotFalse
  else .ok ()

def checkInvariants (t : Tracked) : Except ConfErr Unit := do
  t.checkProgress t.cfg.voters.ids.keys
  t.checkProgress (MajorityConfig.slice t.cfg.learners)
  t.checkProgress (MajorityConfig.slice t.cfg.learnersNext)
  (MajorityConfig.slice t.cfg.learnersNext).forM t.checkLearnersNext
  (MajorityConfig.slice t.cfg.learners).forM t.checkLearners
  t.checkNonJoint

def checkAndReturn (t : Tracked) : Except ConfErr Tracked := do
  t.checkInvariants
  .ok t

def setLearner (t : Tracked) (id : Nat) (b : Bool) : Tracked :=
  match t.prs.get? id with
  | none => t
  | some pr => { t with prs := t.prs.insert id { pr with isLearner := b } }

end Tracked

structure Changer where
  tracker : ProgressTracker
  lastIndex : Nat
  deriving DecidableEq

namespace Changer

def checkAndCopy (c : Changer) : Except ConfErr Tracked :=
  Tracked.checkAndReturn ⟨c.tracker.config.clone,c.tracker.progress⟩

/-- A new member starts with Next at the last index and counts as recently active. -/
def initProgress (c : Changer) (t : Tracked) (id : Nat) (isLearner : Bool) : Tracked :=
  let cfg :=
    if isLearner then { t.cfg with learners := nilAwareAdd t.cfg.learners id }
    else t.cfg.addIncoming id
  ⟨cfg,t.prs.insert id {
    matchIndex := 0
    next := c.lastIndex
    state := .stateProbe
    pendingSnapshot := 0
    recentActive := true
    probeSent := false
    inflights := .newInflights c.tracker.maxInflight
    isLearner := isLearner }⟩

def makeVoter (c : Changer) (t : Tracked) (id : Nat) : Tracked :=
  match t.prs.get? id with
  | none => c.initProgress t id false
  | some _ =>
    let t := t.setLearner id false
    ⟨{ t.cfg with
        learners := nilAwareDelete t.cfg.learners id
        learnersNext := nilAwareDelete t.cfg.learnersNext id }.addIncoming id,t.prs⟩

def remove (t : Tracked) (id : Nat) : Tracked :=
  match t.prs.get? id with
  | none => t
  | some _ =>
    let cfg := { t.cfg with
      learners := nilAwareDelete t.cfg.learners id
      learnersNext := nilAwareDelete t.cfg.learnersNext id }.deleteIncoming id
    if MajorityConfig.has cfg.voters.outgoing id then ⟨cfg,t.prs⟩ else ⟨cfg,t.prs.erase id⟩

def makeLearner (c : Changer) (t : Tracked) (id : Nat) : Tracked :=
  match t.prs.get? id with
  | none => c.initProgress t id true
  | some pr =>
    if pr.isLearner then t
    else
      let t := remove t id
      if MajorityConfig.has t.cfg.voters.outgoing id then
        ⟨{ t.cfg with learnersNext := nilAwareAdd t.cfg.learnersNext id },t.prs.insert id pr⟩
      else
        ⟨{ t.cfg with learners := nilAwareAdd t.cfg.learners id },
          t.prs.insert id { pr with isLearner := true }⟩

/-- A zero NodeID marks a change that was dropped downstream of raft. -/
def applyOne (c : Changer) (t : Tracked) (cc : ConfChangeSingle) : Except ConfErr Tracked :=
  if cc.nodeID=0 then .ok t
  else match cc.type with
    | .addNode => .ok (c.makeVoter t cc.nodeID)
    | .addLearnerNode => .ok (c.makeLearner t cc.nodeID)
    | .removeNode => .ok (remove t cc.nodeID)
    | .updateNode => .ok t
    | .unknown code => .error (.unexpectedType code)

def apply (c : Changer) (t : Tracked) (ccs : List ConfChangeSingle) : Except ConfErr Tracked := do
  let t ← ccs.foldlM c.applyOne t
  if MajorityConfig.len t.cfg.voters.incoming=0 then .error .removedAllVoters else .ok t

def enterJoint (c : Changer) (autoLeave : Bool) (ccs : List ConfChangeSingle) :
    Except ConfErr Tracked := do
  let t ← c.checkAndCopy
  if t.cfg.joint then .error .alreadyJoint
  else if MajorityConfig.len t.cfg.voters.incoming=0 then .error .zeroVoterJoint
  else do
    -- the outgoing half becomes a copy of the incoming one
    let outgoing := some (IdSet.ofList (MajorityConfig.slice t.cfg.voters.incoming))
    let t : Tracked := ⟨{ t.cfg with voters := { t.cfg.voters with outgoing := outgoing } },t.prs⟩
    let t ← c.apply t ccs
    Tracked.checkAndReturn ⟨{ t.cfg with autoLeave := autoLeave },t.prs⟩

/-- The staged learners become learners. -/
def promoteNext (t : Tracked) (id : Nat) : Tracked :=
  Tracked.setLearner ⟨{ t.cfg with learners := nilAwareAdd t.cfg.learners id },t.prs⟩ id true

/-- Progress of an outgoing voter goes unless it stays as voter or learner. -/
def dropOutgoing (cfg : TrackerConfig) (prs : ProgressMap) (id : Nat) : ProgressMap :=
  if MajorityConfig.has cfg.voters.incoming id || MajorityConfig.has cfg.learners id then prs
  else prs.erase id

def leaveJoint (c : Changer) : Except ConfErr Tracked := do
  let t ← c.checkAndCopy
  if !t.cfg.joint then .error .leaveNonJoint
  else
    let t := (MajorityConfig.slice t.cfg.learnersNext).foldl promoteNext t
    let cfg := { t.cfg with learnersNext := none }
    let prs := (MajorityConfig.slice cfg.voters.outgoing).foldl (dropOutgoing cfg) t.prs
    Tracked.checkAndReturn
      ⟨{ cfg with voters := { cfg.voters with outgoing := none }, autoLeave := false },prs⟩

def simple (c : Changer) (ccs : List ConfChangeSingle) : Except ConfErr Tracked := do
  let t ← c.checkAndCopy
  if t.cfg.joint then .error .simpleInJoint
  else do
    let t ← c.apply t ccs
    if 1<symdiff c.tracker.config.voters.incoming t.cfg.voters.incoming then
      .error .moreThanOneVoter
    else t.checkAndReturn

end Changer

end RaftTesting
