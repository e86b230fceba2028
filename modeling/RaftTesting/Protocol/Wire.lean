import RaftTesting.Protocol.Raftpb

namespace RaftTesting.Wire

/-- The length of a varint. -/
def sov (x : Nat) : Nat := (Nat.log2 x+7)/7

def entryTypeCode : EntryType → Nat
  | .entryNormal => 0
  | .entryConfChange => 1
  | .entryConfChangeV2 => 2

/-- The encoded size of an entry: three varint fields, and the data when there is any. -/
def entrySize (e : Entry) : Nat :=
  3+sov (entryTypeCode e.type)+sov e.term+sov e.index+
    (if e.data=[] then 0 else 1+sov e.data.length+e.data.length)

def changeTypeCode : ConfChangeType → UInt8
  | .addNode => 0
  | .removeNode => 1
  | .updateNode => 2
  | .addLearnerNode => 3
  | .unknown code => UInt8.ofNat code

def changeTypeOf : UInt8 → ConfChangeType
  | 0 => .addNode
  | 1 => .removeNode
  | 2 => .updateNode
  | 3 => .addLearnerNode
  | code => .unknown code.toNat

/-- A ConfChange without a context whose fields fit into one byte each: the tags 1, 2
and 3 with ID, Type and NodeID. -/
def marshalConfChange (cc : ConfChange) : Bytes :=
  [8,0,16,changeTypeCode cc.type,24,UInt8.ofNat cc.nodeID]

def unmarshalConfChange : Bytes → Option ConfChange
  | [8,_,16,type,24,nodeID] => some { type := changeTypeOf type, nodeID := nodeID.toNat }
  | _ => none

/-- A ConfChangeV2 that is zero is encoded by no bytes at all. -/
def unmarshalConfChangeV2 : Bytes → Option ConfChangeV2
  | [] => some {}
  | _ => none

/-- The encoding of the entries and changes that small examples use. -/
abbrev small : Raftpb where
  size := entrySize
  unmarshalConfChange := unmarshalConfChange
  decodedConfChange _ := { type := .addNode, nodeID := 0 }
  unmarshalConfChangeV2 := unmarshalConfChangeV2
  asV2 cc := { changes := [⟨cc.type,cc.nodeID⟩], context := cc.context }
  asV2_eq _ := rfl
  enterJoint cc := if cc.transition≠.auto ∨ 1<cc.changes.length then
    some (decide (cc.transition≠.jointExplicit)) else none
  enterJoint_eq _ := rfl
  leaveJoint cc := cc.transition=.auto && cc.changes.isEmpty
  leaveJoint_iff _ := by simp
  equivalent a b := a.voters.isPerm b.voters && a.learners.isPerm b.learners &&
    a.votersOutgoing.isPerm b.votersOutgoing && a.learnersNext.isPerm b.learnersNext &&
    a.autoLeave==b.autoLeave
  equivalent_iff a b := by
    simp only [Bool.and_eq_true,List.isPerm_iff,beq_iff_eq,and_assoc]
    exact ⟨fun ⟨h1,h2,h3,h4,h5⟩ => ⟨h1,h2,h3,h4,h5⟩,fun ⟨h1,h2,h3,h4,h5⟩ => ⟨h1,h2,h3,h4,h5⟩⟩

def transitionCode : ConfChangeTransition → UInt8
  | .auto => 0
  | .jointImplicit => 1
  | .jointExplicit => 2

def transitionOf : UInt8 → Option ConfChangeTransition
  | 0 => some .auto
  | 1 => some .jointImplicit
  | 2 => some .jointExplicit
  | _ => none

/-- Each change is an embedded message of four bytes: the tags 1 and 2 with Type and NodeID. -/
def marshalChanges : List ConfChangeSingle → Bytes
  | [] => []
  | c::cs => 18::4::8::changeTypeCode c.type::16::UInt8.ofNat c.nodeID::marshalChanges cs

/-- A ConfChangeV2 without a context: the tag 1 with Transition, then the changes. -/
def marshalConfChangeV2 (cc : ConfChangeV2) : Bytes :=
  8::transitionCode cc.transition::marshalChanges cc.changes

def unmarshalChanges : Bytes → Option (List ConfChangeSingle)
  | [] => some []
  | 18::4::8::type::16::nodeID::rest => do
    let cs ← unmarshalChanges rest
    some (⟨changeTypeOf type,nodeID.toNat⟩::cs)
  | _ => none

/-- The encoding of examples that also go through joint configurations. -/
abbrev joint : Raftpb :=
  { small with
    unmarshalConfChangeV2
      | [] => some {}
      | 8::transition::rest => do
        let t ← transitionOf transition
        let cs ← unmarshalChanges rest
        some { transition := t, changes := cs }
      | _ => none }

theorem changeTypeOf_code {t : ConfChangeType} (h : ∀ code, t≠.unknown code) :
    changeTypeOf (changeTypeCode t)=t := by
  cases t with
  | unknown code => exact absurd rfl (h code)
  | _ => rfl

theorem unmarshal_marshalConfChange {cc : ConfChange} (ht : ∀ code, cc.type≠.unknown code)
    (hid : cc.nodeID<128) (hctx : cc.context=[]) :
    unmarshalConfChange (marshalConfChange cc)=some cc := by
  obtain ⟨type,nodeID,context⟩ := cc
  dsimp only at ht hid hctx
  subst hctx
  have hbyte : (UInt8.ofNat nodeID).toNat=nodeID := by
    rw [UInt8.toNat_ofNat']
    omega
  simp only [marshalConfChange,unmarshalConfChange,changeTypeOf_code ht,hbyte]

end RaftTesting.Wire
