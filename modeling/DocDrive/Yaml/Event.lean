import DocDrive.Yaml.Tokens

/-!
# Events of a document

The grammar of YAML turns tokens into the events of a traversal of the document: scalars, aliases,
and starts and ends of collections. `events` reads the first document of a text.

The grammar is a stack machine. Its stack holds what is still expected, a `Goal` each; a step takes
the goal on top, looks at one token, and may emit an event, drop the token and expect further goals.
-/

namespace DocDrive.Yaml

/-! ## Events -/

/-- What a node carries besides its content: a name for aliases, and a tag. -/
structure Properties where
  anchor : Option (List Char) := none
  tag : Option Bytes := none
  deriving DecidableEq, Repr

/-- A step of a traversal of a document. -/
inductive Event where
  | alias (name : List Char)
  | scalar (props : Properties) (text : List Char) (style : ScalarStyle)
  | sequenceStart (props : Properties)
  | sequenceEnd
  | mappingStart (props : Properties)
  | mappingEnd
  deriving DecidableEq, Repr

/-- The scalar that stands where nothing is written. -/
def Event.empty (props : Properties) : Event := .scalar props [] .plain

/-! ## Directives -/

/-- What handles of tags stand for. -/
abbrev Handles := List (List Char × Bytes)

def standardHandles : Handles :=
  [(['!'], [0x21]), (['!', '!'], Utf8.ofString "tag:yaml.org,2002:")]

def isKnownVersion (major minor : Nat) : Bool := major == 1 && (minor == 1 || minor == 2)

/-- The directives before a document: the handles they define, and the tokens after them. A second
version, an unknown version and a second meaning of a handle are refused. -/
def directives? (versioned : Bool) (handles : Handles) : List Token → Option (Handles × List Token)
  | .versionDirective major minor :: rest =>
    if versioned || !isKnownVersion major minor then none else directives? true handles rest
  | .tagDirective handle start :: rest =>
    if handles.any (·.1 == handle) then none
    else directives? versioned (handles ++ [(handle, start)]) rest
  | rest => some (handles, rest)

/-- The handles in force: those of the document, then the standard ones. -/
def withStandard (handles : Handles) : Handles := handles ++ standardHandles

/-- The tag that a handle and a suffix spell. -/
def tagOf? (handles : Handles) (handle : List Char) (suffix : Bytes) : Option Bytes :=
  if handle.isEmpty then some suffix
  else (handles.find? (·.1 == handle)).map fun h => h.2 ++ suffix

/-! ## Grammar -/

/-- What the grammar still expects. -/
inductive Goal where
  /-- The content of a document, which may be missing. -/
  | content
  /-- A node; block collections and dashes without indentation of their own may be allowed. -/
  | node (block dashes : Bool)
  | blockItem
  /-- An item of a sequence that is not indented below its key. -/
  | dashItem
  | blockKey
  | blockValue
  | flowItem (first : Bool)
  | pairKey
  | pairValue
  | pairEnd
  | flowKey (first : Bool)
  | flowValue
  /-- The missing value after a lone key. -/
  | noValue
  deriving DecidableEq, Repr

/-- The outcome of one step: events to emit, goals that replace the one on top, tokens left. -/
structure Step where
  events : List Event
  goals : List Goal
  rest : List Token

/-- Tokens that end a document before its content. -/
def endsContent : Token → Bool
  | .versionDirective .. => true
  | .tagDirective .. => true
  | .documentStart => true
  | .documentEnd => true
  | .streamEnd => true
  | _ => false

/-- Tokens after which a block entry has no value. -/
def endsEntry : Token → Bool
  | .blockEntry => true
  | .blockEnd => true
  | _ => false

/-- Tokens after which a key or value of a block mapping is missing. -/
def endsPart : Token → Bool
  | .key => true
  | .value => true
  | .blockEnd => true
  | _ => false

/-- Tokens after which a key of a flow sequence pair is missing. -/
def endsPairKey : Token → Bool
  | .value => true
  | .flowEntry => true
  | .flowSequenceEnd => true
  | _ => false

/-- Tokens after which a value of a flow sequence pair is missing. -/
def endsPairValue : Token → Bool
  | .flowEntry => true
  | .flowSequenceEnd => true
  | _ => false

/-- Tokens after which a key of a flow mapping is missing. -/
def endsFlowKey : Token → Bool
  | .value => true
  | .flowEntry => true
  | .flowMappingEnd => true
  | _ => false

/-- Tokens after which a value of a flow mapping is missing. -/
def endsFlowValue : Token → Bool
  | .flowEntry => true
  | .flowMappingEnd => true
  | _ => false

/-- An anchor and a tag in either order, and the tokens after them. -/
def properties? (handles : Handles) : List Token → Option (Properties × List Token)
  | .anchor a :: .tag h s :: rest => (tagOf? handles h s).map fun t => (⟨some a, some t⟩, rest)
  | .tag h s :: .anchor a :: rest => (tagOf? handles h s).map fun t => (⟨some a, some t⟩, rest)
  | .anchor a :: rest => some (⟨some a, none⟩, rest)
  | .tag h s :: rest => (tagOf? handles h s).map fun t => (⟨none, some t⟩, rest)
  | rest => some ({}, rest)

/-- A node after its properties. -/
def nodeStep? (block dashes : Bool) (props : Properties) : List Token → Option Step
  | [] => none
  | t :: rest =>
    match t with
    | .scalar text style => some ⟨[.scalar props text style], [], rest⟩
    | .flowSequenceStart => some ⟨[.sequenceStart props], [.flowItem true], rest⟩
    | .flowMappingStart => some ⟨[.mappingStart props], [.flowKey true], rest⟩
    | t =>
      if dashes ∧ t = .blockEntry then some ⟨[.sequenceStart props], [.dashItem], t :: rest⟩
      else if block ∧ t = .blockSequenceStart then
        some ⟨[.sequenceStart props], [.blockItem], rest⟩
      else if block ∧ t = .blockMappingStart then
        some ⟨[.mappingStart props], [.blockKey], rest⟩
      else if props.anchor.isSome || props.tag.isSome then some ⟨[.empty props], [], t :: rest⟩
      else none

/-- What follows the indicator before a part: a node and then `goals`, or nothing. -/
def part? (ends : Token → Bool) (block dashes : Bool) (goals : List Goal) :
    List Token → Option Step
  | [] => none
  | t :: rest =>
    if ends t then some ⟨[.empty {}], goals, t :: rest⟩
    else some ⟨[], .node block dashes :: goals, t :: rest⟩

/-- The next item of a flow sequence, after its comma. -/
def flowItem? : List Token → Option Step
  | [] => none
  | .key :: rest => some ⟨[.mappingStart {}], [.pairKey, .flowItem false], rest⟩
  | .flowSequenceEnd :: rest => some ⟨[.sequenceEnd], [], rest⟩
  | rest => some ⟨[], [.node false false, .flowItem false], rest⟩

/-- The next entry of a flow mapping, after its comma. -/
def flowEntry? : List Token → Option Step
  | [] => none
  | .key :: rest => part? endsFlowKey false false [.flowValue, .flowKey false] rest
  | .flowMappingEnd :: rest => some ⟨[.mappingEnd], [], rest⟩
  | rest => some ⟨[], [.node false false, .noValue, .flowKey false], rest⟩

def step? (handles : Handles) (goal : Goal) (tokens : List Token) : Option Step :=
  match tokens with
  | [] => none
  | t :: rest =>
    match goal with
    | .content =>
      if endsContent t then some ⟨[.empty {}], [], tokens⟩ else some ⟨[], [.node true false], tokens⟩
    | .node block dashes =>
      match t with
      | .alias name => some ⟨[.alias name], [], rest⟩
      | _ =>
        match properties? handles tokens with
        | none => none
        | some (props, after) => nodeStep? block dashes props after
    | .blockItem =>
      match t with
      | .blockEntry => part? endsEntry true false [.blockItem] rest
      | .blockEnd => some ⟨[.sequenceEnd], [], rest⟩
      | _ => none
    | .dashItem =>
      match t with
      | .blockEntry => part? (fun t => endsEntry t || endsPart t) true false [.dashItem] rest
      | _ => some ⟨[.sequenceEnd], [], tokens⟩
    | .blockKey =>
      match t with
      | .key => part? endsPart true true [.blockValue, .blockKey] rest
      | .blockEnd => some ⟨[.mappingEnd], [], rest⟩
      | _ => none
    | .blockValue =>
      match t with
      | .value => part? endsPart true true [] rest
      | _ => some ⟨[.empty {}], [], tokens⟩
    | .flowItem first =>
      match t with
      | .flowSequenceEnd => some ⟨[.sequenceEnd], [], rest⟩
      | .flowEntry => if first then flowItem? tokens else flowItem? rest
      | _ => if first then flowItem? tokens else none
    | .pairKey =>
      if endsPairKey t then some ⟨[.empty {}], [.pairValue], rest⟩
      else some ⟨[], [.node false false, .pairValue], tokens⟩
    | .pairValue =>
      match t with
      | .value => part? endsPairValue false false [.pairEnd] rest
      | _ => some ⟨[.empty {}], [.pairEnd], tokens⟩
    | .pairEnd => some ⟨[.mappingEnd], [], tokens⟩
    | .flowKey first =>
      match t with
      | .flowMappingEnd => some ⟨[.mappingEnd], [], rest⟩
      | .flowEntry => if first then flowEntry? tokens else flowEntry? rest
      | _ => if first then flowEntry? tokens else none
    | .flowValue =>
      match t with
      | .value => part? endsFlowValue false false [] rest
      | _ => some ⟨[.empty {}], [], tokens⟩
    | .noValue => some ⟨[.empty {}], [], tokens⟩

/-- The events that meet a stack of goals, backward, and the tokens left. -/
def derive? (handles : Handles) : Nat → List Event → List Goal → List Token →
    Option (List Event × List Token)
  | _, done, [], tokens => some (done, tokens)
  | 0, _, _ :: _, _ => none
  | fuel + 1, done, goal :: goals, tokens =>
    match step? handles goal tokens with
    | none => none
    | some s => derive? handles fuel (s.events.reverse ++ done) (s.goals ++ goals) s.rest

/-! ## The first document -/

/-- The events of a document whose first goal is given. The token after it must be readable. -/
def document? (handles : Handles) (goal : Goal) (tokens : List Token) : Option (List Event) :=
  match derive? (withStandard handles) (8 * tokens.length + 8) [] [goal] tokens with
  | some (done, _ :: _) => some done.reverse
  | _ => none

/-- The events of the first document; none at all if the text ends before one starts. -/
def events (tokens : List Token) : Option (List Event) :=
  match tokens with
  | .streamStart :: rest =>
    match rest with
    | [] => none
    | .streamEnd :: _ => some []
    | .versionDirective .. :: _ | .tagDirective .. :: _ | .documentStart :: _ =>
      match directives? false [] rest with
      | some (handles, .documentStart :: rest) => document? handles .content rest
      | _ => none
    | _ => document? [] (.node true false) rest
  | _ => none

end DocDrive.Yaml
