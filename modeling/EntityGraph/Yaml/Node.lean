import EntityGraph.Yaml.Tag
import EntityGraph.Yaml.Token

/-!
# Nodes of YAML documents

A document is a graph of numbered nodes. The parts of a collection are given by their numbers, and
an alias is nothing but the number of the node that has the anchor. So a node may be a part of
several others, and of itself.
-/

namespace EntityGraph.Yaml

/-- What a node is made of. -/
inductive Parts
  | scalar (text : String)
  | seq (items : List Nat)
  | map (entries : List (Nat × Nat))
  deriving DecidableEq, Repr

/-- A node. -/
structure Node where
  tag : Tag
  parts : Parts
  deriving DecidableEq, Repr

/-- The node that stands where nothing is written. -/
def Node.empty : Node := ⟨.null, .scalar ""⟩

instance : Inhabited Node := ⟨.empty⟩

/-- Nodes by their numbers. -/
abbrev Nodes := Array Node

namespace Nodes

/-- The node of a number. -/
def node (ns : Nodes) (n : Nat) : Node := ns[n]?.getD .empty

/-- The kind of the node of a number. -/
def tag (ns : Nodes) (n : Nat) : Tag := (ns.node n).tag

/-- The entries of the mapping of a number. -/
def entries (ns : Nodes) (n : Nat) : List (Nat × Nat) :=
  match (ns.node n).parts with
  | .map entries => entries
  | _ => []

/-- The nodes, one of them with other entries. -/
def setEntries (ns : Nodes) (n : Nat) (entries : List (Nat × Nat)) : Nodes :=
  ns.setIfInBounds n { ns.node n with parts := .map entries }

/-- The nodes, one of them of another kind. -/
def setTag (ns : Nodes) (n : Nat) (tag : Tag) : Nodes :=
  ns.setIfInBounds n { ns.node n with tag := tag }

end Nodes

/-! ### Building nodes -/

/-- The state of building nodes. -/
structure Builder where
  tokens : List Token
  nodes : Nodes
  /-- The numbers of the nodes of the anchors so far, latest first. -/
  anchors : List (String × Nat)
  /-- The meanings of the handles of tags. -/
  handles : List (String × String)

/-- A step of building. -/
abbrev Build := StateT Builder Result

namespace Build

/-- The meanings that handles have by default. -/
def defaultHandles : List (String × String) := [("!", "!"), ("!!", Tag.root)]

/-- The next token. -/
def peek : Build Token := do
  match (← get).tokens with
  | .broken e :: _ => throw e
  | t :: _ => return t
  | [] => return .streamEnd

/-- Passes one token. -/
def advance : Build Unit := modify fun b ↦ { b with tokens := b.tokens.tail }

/-- Whether the next token is one; if so, it is passed. -/
def take (t : Token) : Build Bool := do
  if (← peek) = t then
    advance
    return true
  else return false

/-- Passes a token, which has to be the next. -/
def expect (t : Token) : Build Unit := do
  if !(← take t) then throw .malformed

/-- The anchor and the tag before a node, in either order, each if it is there. -/
def properties : Build (Option String × Option WrittenTag) := do
  match ← peek with
  | .anchor a =>
    advance
    match ← peek with
    | .tag t =>
      advance
      return (some a, some t)
    | _ => return (some a, none)
  | .tag t =>
    advance
    match ← peek with
    | .anchor a =>
      advance
      return (some a, some t)
    | _ => return (none, some t)
  | _ => return (none, none)

/-- The full name of a tag. A lone mark is no name: it asks for the kind that the node would have
without a tag. -/
def tagName? : Option WrittenTag → Build (Option String)
  | none => return none
  | some t =>
    match t.handle with
    | none => return if t.suffix = "!" then none else some t.suffix
    | some handle => do
      match (← get).handles.lookup handle with
      | some meaning =>
        let name := meaning ++ t.suffix
        return if name = "!" then none else some name
      | none => throw .malformed

/-- Checks that an anchor is new. -/
def checkNew : Option String → Build Unit
  | none => return
  | some a => do
    if ((← get).anchors.lookup a).isSome then throw .malformed

/-- The number of a node that is put in, under an anchor if it has one. -/
def add (anchor : Option String) (n : Node) : Build Nat :=
  modifyGet fun b ↦
    let number := b.nodes.size
    (number,
      { b with
        nodes := b.nodes.push n
        anchors := (anchor.map fun a ↦ (a, number)).toList ++ b.anchors })

/-- The number of a collection of a kind, which is there before its parts are. -/
def collection (anchor : Option String) (tag : Tag) (parts : Build Parts) : Build Nat := do
  let number ← add anchor ⟨tag, .seq []⟩
  let parts ← parts
  modify fun b ↦ { b with nodes := b.nodes.setIfInBounds number ⟨tag, parts⟩ }
  return number

/-- The number of a node that stands where nothing is written. -/
def addEmpty : Build Nat := add none .empty

/-- Where a node stands: whether blocks may start there, and whether a sequence may start there that
is not indented. -/
structure Place where
  allowsBlock : Bool
  allowsUnindented : Bool

/-- Inside of a flow collection. -/
def Place.flow : Place := ⟨false, false⟩

/-- As an entry of a block sequence. -/
def Place.entry : Place := ⟨true, false⟩

/-- As a key or a value of a block mapping. -/
def Place.pair : Place := ⟨true, true⟩

mutual

/-- The number of the next node. -/
def node (fuel : Nat) (place : Place) : Build Nat :=
  match fuel with
  | 0 => throw .malformed
  | fuel + 1 => do
    match ← peek with
    | .alias a =>
      advance
      match (← get).anchors.lookup a with
      | some n => return n
      | none => throw .malformed
    | _ =>
      let (anchor, written) ← properties
      let name ← tagName? written
      let tag (default : Tag) : Tag := (name.map Tag.ofName).getD default
      let isBare := anchor.isNone && written.isNone
      let next ← peek
      checkNew anchor
      match next with
      | .scalar isPlain text =>
        advance
        let isResolved := (isPlain && written.isNone) || (written.isSome && name.isNone)
        add anchor ⟨tag (if isResolved then Tag.ofPlain text else .text), .scalar text⟩
      | .flowSeqStart =>
        advance
        collection anchor (tag .seq) ((flowSeq fuel true).map .seq)
      | .flowMapStart =>
        advance
        collection anchor (tag .map) ((flowMap fuel true).map .map)
      | .blockEntry =>
        if place.allowsUnindented then
          collection anchor (tag .seq) ((unindentedSeq fuel).map .seq)
        else if isBare then throw .malformed
        else add anchor ⟨tag .null, .scalar ""⟩
      | .blockSeqStart =>
        if place.allowsBlock then
          advance
          collection anchor (tag .seq) ((blockSeq fuel).map .seq)
        else if isBare then throw .malformed
        else add anchor ⟨tag .null, .scalar ""⟩
      | .blockMapStart =>
        if place.allowsBlock then
          advance
          collection anchor (tag .map) ((blockMap fuel).map .map)
        else if isBare then throw .malformed
        else add anchor ⟨tag .null, .scalar ""⟩
      | _ => if isBare then throw .malformed else add anchor ⟨tag .null, .scalar ""⟩

/-- The number of a node, or of nothing where one of some tokens is next. -/
def nodeUnless (fuel : Nat) (place : Place) (ends : List Token) : Build Nat :=
  match fuel with
  | 0 => throw .malformed
  | fuel + 1 => do
    if ends.contains (← peek) then addEmpty else node fuel place

/-- The rest of a block sequence. -/
def blockSeq (fuel : Nat) : Build (List Nat) :=
  match fuel with
  | 0 => throw .malformed
  | fuel + 1 => do
    if ← take .blockEntry then
      let n ← nodeUnless fuel .entry [.blockEntry, .blockEnd]
      let rest ← blockSeq fuel
      return n :: rest
    else
      expect .blockEnd
      return []

/-- The rest of a sequence that is not indented. -/
def unindentedSeq (fuel : Nat) : Build (List Nat) :=
  match fuel with
  | 0 => throw .malformed
  | fuel + 1 => do
    if ← take .blockEntry then
      let n ← nodeUnless fuel .entry [.blockEntry, .key, .value, .blockEnd]
      let rest ← unindentedSeq fuel
      return n :: rest
    else return []

/-- The rest of a block mapping. -/
def blockMap (fuel : Nat) : Build (List (Nat × Nat)) :=
  match fuel with
  | 0 => throw .malformed
  | fuel + 1 => do
    if ← take .key then
      let k ← nodeUnless fuel .pair [.key, .value, .blockEnd]
      let v ← if ← take .value then nodeUnless fuel .pair [.key, .value, .blockEnd] else addEmpty
      let rest ← blockMap fuel
      return (k, v) :: rest
    else
      expect .blockEnd
      return []

/-- The value behind a key inside of a flow collection with an end. -/
def flowValue (fuel : Nat) (close : Token) : Build Nat :=
  match fuel with
  | 0 => throw .malformed
  | fuel + 1 => do
    if ← take .value then nodeUnless fuel .flow [.flowEntry, close] else addEmpty

/-- The rest of a flow sequence. A key among its members makes a mapping of one entry. -/
def flowSeq (fuel : Nat) (isFirst : Bool) : Build (List Nat) :=
  match fuel with
  | 0 => throw .malformed
  | fuel + 1 => do
    if ← take .flowSeqEnd then return []
    if !isFirst then expect .flowEntry
    if ← take .flowSeqEnd then return []
    let n ← if ← take .key then
        collection none .map do
          let k ← nodeUnless fuel .flow [.value, .flowEntry, .flowSeqEnd]
          let v ← flowValue fuel .flowSeqEnd
          return .map [(k, v)]
      else node fuel .flow
    let rest ← flowSeq fuel false
    return n :: rest

/-- The rest of a flow mapping. A member without a value has an empty one. -/
def flowMap (fuel : Nat) (isFirst : Bool) : Build (List (Nat × Nat)) :=
  match fuel with
  | 0 => throw .malformed
  | fuel + 1 => do
    if ← take .flowMapEnd then return []
    if !isFirst then expect .flowEntry
    if ← take .flowMapEnd then return []
    let entry ← if ← take .key then do
        let k ← nodeUnless fuel .flow [.value, .flowEntry, .flowMapEnd]
        let v ← flowValue fuel .flowMapEnd
        pure (k, v)
      else do
        let k ← node fuel .flow
        let v ← addEmpty
        pure (k, v)
    let rest ← flowMap fuel false
    return entry :: rest

end

/-- The directives before a document: at most one version, which has to be the first, and handles,
each at most once. -/
def directives (fuel : Nat) (hasVersion : Bool) (handles : List (String × String)) :
    Build (List (String × String)) :=
  match fuel with
  | 0 => throw .malformed
  | fuel + 1 => do
    match ← peek with
    | .version major =>
      advance
      if hasVersion || major ≠ 1 then throw .malformed
      directives fuel true handles
    | .tagHandle handle meaning =>
      advance
      if (handles.lookup handle).isSome then throw .malformed
      directives fuel hasVersion ((handle, meaning) :: handles)
    | .otherDirective =>
      advance
      directives fuel hasVersion handles
    | _ => return handles

/-- Passes the marks that end a document. -/
def skipEnds (fuel : Nat) : Build Unit :=
  match fuel with
  | 0 => throw .malformed
  | fuel + 1 => do
    if ← take .documentEnd then skipEnds fuel

/-- Whether a token starts something other than a node at the start of a document. -/
def endsContent : Token → Bool
  | .version _ | .tagHandle .. | .otherDirective | .documentStart | .documentEnd
  | .streamEnd => true
  | _ => false

/-- The directives of a document and the mark that ends them. -/
def opening (fuel : Nat) : Build (List (String × String)) := do
  let handles ← directives fuel false []
  expect .documentStart
  return handles

/-- The document behind its directives and its mark. -/
def explicitDocument (fuel : Nat) : Build Nat := do
  let handles ← opening fuel
  modify fun b ↦ { b with handles := handles ++ defaultHandles }
  if endsContent (← peek) then addEmpty else node fuel .entry

/-- The end of the text. The opening of another document is read before it is refused. -/
def ending (fuel : Nat) : Build Unit := do
  skipEnds fuel
  if !(← take .streamEnd) then
    let _ ← opening fuel
    throw .malformed

/-- The one document of a text, if it has any. -/
def document (fuel : Nat) : Build (Option Nat) := do
  let first ← peek
  let isImplicit := !endsContent first || first = .documentEnd
  let root ← if isImplicit then some <$> node fuel .entry
    else if first = .streamEnd then pure none
    else some <$> explicitDocument fuel
  ending fuel
  return root

end Build

/-- A document: its nodes, and the number of the one that holds all others. -/
structure Document where
  nodes : Nodes
  root : Nat

namespace Document

/-- The document that tokens make, if they make any. -/
def ofTokens (ts : List Token) : Result (Option Document) := do
  let (root, b) ← (Build.document (4 * ts.length + 8)).run ⟨ts, #[], [], Build.defaultHandles⟩
  return root.map fun n ↦ ⟨b.nodes, n⟩

/-- The document that a text spells, if it spells any. -/
def ofChars (cs : List Char) : Result (Option Document) := ofTokens (Token.ofChars cs)

end Document

end EntityGraph.Yaml
