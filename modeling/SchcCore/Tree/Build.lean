import SchcCore.Rule.Load

/- The decision tree shared by all rules of a set: nodes in one vector, linked by index. -/
namespace SchcCore
open Outcome BigEndian

structure ParseStep where
  field : FieldRef
  length : FieldLength
  fieldPosition : Nat
  entryIndex : Nat
  deriving DecidableEq

structure Branch where
  parse : ParseStep
  direction : DirectionSelector
  target : TargetValue
  matching : MatchingOperator
  action : Cda
  next : Nat
  deriving DecidableEq

structure Node where
  ruleId : Option RuleId
  ruleOrder : Option Nat
  branches : List Branch
  deriving DecidableEq

structure DecisionTree where
  nodes : List Node
  deriving DecidableEq

structure BranchGroup where
  parse : ParseStep
  direction : DirectionSelector
  target : TargetValue
  matching : MatchingOperator
  action : Cda
  nextField : Option FieldRef
  members : List (Nat × Rule)
  sortKey : List UInt8

/- Sort keys: every part is tagged or counted. -/

/-- `usize::to_be_bytes` and `u64::to_be_bytes` -/
def wordBytes (n : Nat) : List UInt8 := toBytes 8 n

def countedBytes (bytes : List UInt8) : List UInt8 := wordBytes bytes.length ++ bytes

def taggedName (tag : UInt8) (name : FieldName) : List UInt8 :=
  tag :: countedBytes name.text.toUTF8.data.toList

def fieldRefKey : FieldRef → List UInt8
  | .ipv6 name => taggedName 0 name
  | .udp name => taggedName 1 name
  | .coap name => taggedName 2 name
  | .icmpv6 name => taggedName 3 name
  | .coapOption number => 4 :: wordBytes number
  | .unused => [5]
  | .payload => [6]
  | .syntheticCoapMarker => [7]
  | .unknownSid sid => 8 :: wordBytes sid

def fieldLengthKey : FieldLength → List UInt8
  | .fixedBits bits => 0 :: wordBytes bits
  | .variableBytes => [1]
  | .variableBits => [2]
  | .tokenLength => [3]
  | .fromPreviousField entryIndex unit =>
      4 :: (wordBytes entryIndex ++ [match unit with
        | .bytes => 0
        | .bits => 1])
  | .functionSid sid => 5 :: wordBytes sid

def directionKey : DirectionSelector → List UInt8
  | .bidirectional => [0]
  | .up => [1]
  | .down => [2]

def targetKey : TargetValue → List UInt8
  | .none => [0]
  | .bytes bytes => 1 :: countedBytes bytes
  | .mapping values => 2 :: (wordBytes values.length ++ values.flatMap countedBytes)

def matchingKey : MatchingOperator → List UInt8
  | .equal => [0]
  | .ignore => [1]
  | .msb bits => 2 :: wordBytes bits
  | .matchMapping => [3]

def cdaKey : Cda → List UInt8
  | .notSent => [0]
  | .valueSent => [1]
  | .mappingSent => [2]
  | .lsb => [3]
  | .compute => [4]
  | .deviceIid => [5]
  | .appIid => [6]

def optionalFieldRefKey : Option FieldRef → List UInt8
  | some field => 1 :: fieldRefKey field
  | none => [0]

def branchSortKey (fieldRule : FieldRule) (nextField : Option FieldRef) : List UInt8 :=
  fieldRefKey fieldRule.field ++ wordBytes fieldRule.fieldPosition ++
    fieldLengthKey fieldRule.length ++ directionKey fieldRule.direction ++
    targetKey fieldRule.target ++ matchingKey fieldRule.matching ++ cdaKey fieldRule.action ++
    optionalFieldRefKey nextField

/- Grouping the rules of a node by their entry at its depth. -/

/-- Whether an entry, looking ahead to the next one, goes into an existing group: all is
    compared but the entry index. -/
def BranchGroup.accepts (group : BranchGroup) (fieldRule : FieldRule)
    (nextField : Option FieldRef) : Bool :=
  group.parse.field = fieldRule.field && group.parse.length = fieldRule.length &&
    group.parse.fieldPosition = fieldRule.fieldPosition &&
    group.direction = fieldRule.direction && group.target = fieldRule.target &&
    group.matching = fieldRule.matching && group.action = fieldRule.action &&
    group.nextField = nextField

/-- A new group takes its parse step, entry index included, from its first rule. -/
def newGroup (fieldRule : FieldRule) (nextField : Option FieldRef) (member : Nat × Rule) :
    BranchGroup :=
  ⟨⟨fieldRule.field, fieldRule.length, fieldRule.fieldPosition, fieldRule.entryIndex⟩,
    fieldRule.direction, fieldRule.target, fieldRule.matching, fieldRule.action, nextField,
    [member], branchSortKey fieldRule nextField⟩

def joinGroup (fieldRule : FieldRule) (nextField : Option FieldRef) (member : Nat × Rule) :
    List BranchGroup → List BranchGroup
  | [] => [newGroup fieldRule nextField member]
  | group :: groups =>
      if group.accepts fieldRule nextField then
        { group with members := group.members ++ [member] } :: groups
      else group :: joinGroup fieldRule nextField member groups

def nextFieldAt (rule : Rule) (depth : Nat) : Option FieldRef :=
  (rule.fields[depth + 1]?).map (fun next => next.field)

def branchGroupsFrom (depth : Nat) :
    List BranchGroup → List (Nat × Rule) → Result (List BranchGroup)
  | groups, [] => .ok groups
  | groups, (ruleOrder, rule) :: rules =>
      if rule.fields.length < depth then
        invalidRule ruleOrder s!"rule is shorter than tree depth {depth}"
      else
        match rule.fields[depth]? with
        | none => branchGroupsFrom depth groups rules
        | some fieldRule =>
            branchGroupsFrom depth
              (joinGroup fieldRule (nextFieldAt rule depth) (ruleOrder, rule) groups) rules

def branchGroups (rules : List (Nat × Rule)) (depth : Nat) : Result (List BranchGroup) :=
  branchGroupsFrom depth [] rules

def sortGroups (groups : List BranchGroup) : List BranchGroup :=
  groups.insertionSort (fun left right => left.sortKey ≤ right.sortKey)

def BranchGroup.branch (group : BranchGroup) (next : Nat) : Branch :=
  ⟨group.parse, group.direction, group.target, group.matching, group.action, next⟩

/-- The rule that ends at a node of this depth: the first in rule order. -/
def leafAt (rules : List (Nat × Rule)) (depth : Nat) : Option (Nat × Rule) :=
  (rules.filter (fun member => member.2.fields.length = depth)).argmin (fun member => member.1)

/-- `for group in groups`: builds the children and links them. -/
def buildBranches (build : List (Nat × Rule) → List Node → Result (Nat × List Node)) :
    List BranchGroup → List Node → Result (List Branch × List Node)
  | [], nodes => .ok ([], nodes)
  | group :: groups, nodes => do
      let (next, nodes) ← build group.members nodes
      let (branches, nodes) ← buildBranches build groups nodes
      .ok (group.branch next :: branches, nodes)

/-- `height` bounds the nesting of calls; a rule set needs one more than its longest rule. -/
def buildNode : Nat → Nat → List (Nat × Rule) → List Node → Result (Nat × List Node)
  | 0, _, _, _ => panicAt .stackOverflow
  | height + 1, depth, rules, nodes => do
      let nodeIndex := nodes.length
      let leaf := leafAt rules depth
      let node : Node := ⟨leaf.map (fun member => member.2.id), leaf.map (fun member => member.1), []⟩
      let groups ← branchGroups rules depth
      let (branches, nodes) ← buildBranches (buildNode height (depth + 1)) (sortGroups groups)
        (nodes ++ [node])
      .ok (nodeIndex, nodes.modify nodeIndex (fun node => { node with branches := branches }))

/-- `rules.iter().enumerate()` -/
def orderedRules (rules : List Rule) : List (Nat × Rule) :=
  rules.zipIdx.map (fun entry => (entry.2, entry.1))

def longestRule (rules : List (Nat × Rule)) : Nat :=
  rules.foldr (fun member longest => max member.2.fields.length longest) 0

def DecisionTree.build (ruleSet : RuleSet) : Result DecisionTree := do
  let rules := orderedRules ruleSet.rules
  let (_, nodes) ← buildNode (longestRule rules + 1) 0 rules []
  .ok ⟨nodes⟩

end SchcCore
