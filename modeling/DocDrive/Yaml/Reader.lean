import DocDrive.Yaml.Event
import DocDrive.Yaml.Scalar

/-!
# Reading YAML

`Yaml.read?` reads the first document of a text into a node. Aliases copy the node that they name;
keys of one mapping must differ.

Two limits keep a small text from becoming a huge tree: `maxDepth` collections inside one another,
and `copiesPerEvent` copies for each event of the document.
-/

namespace DocDrive.Yaml

/-! ## Anchors -/

/-- An event whose alias is known by number. -/
inductive Ref where
  | event (e : Event)
  | copy (number : Nat)

/-- Names met so far with their numbers, and where the node of each number starts. -/
structure Anchors where
  names : List (List Char × Nat) := []
  places : List (Nat × Nat) := []

namespace Anchors

/-- The number of a name: the one it was given last. -/
def number? (a : Anchors) (name : List Char) : Option Nat :=
  (a.names.find? (·.1 == name)).map (·.2)

/-- Where the node of a number starts: the place that was noted last. -/
def place? (a : Anchors) (number : Nat) : Option Nat :=
  (a.places.find? (·.1 == number)).map (·.2)

/-- A name for the node that starts at a place. Its number is the count of names known before. -/
def add (a : Anchors) (name : List Char) (place : Nat) : Anchors :=
  let number := a.names.length
  { names := (name, number) :: a.names.filter (·.1 != name)
    places := (number, place) :: a.places }

/-- The names of a node that starts at a place. -/
def note (a : Anchors) (props : Properties) (place : Nat) : Anchors :=
  match props.anchor with
  | some name => a.add name place
  | none => a

end Anchors

/-- Events with their aliases numbered, and all anchors; none if an alias names nothing before
it. -/
def number? (a : Anchors) (place : Nat) : List Event → Option (List Ref × Anchors)
  | [] => some ([], a)
  | e :: rest =>
    let found := match e with
      | .alias name => (a.number? name).map fun n => (Ref.copy n, a)
      | .scalar props _ _ => some (.event e, a.note props place)
      | .sequenceStart props => some (.event e, a.note props place)
      | .mappingStart props => some (.event e, a.note props place)
      | e => some (.event e, a)
    match found with
    | none => none
    | some (r, a) => (number? a (place + 1) rest).map fun p => (r :: p.1, p.2)

/-! ## Tags -/

/-- The name of a local tag: what follows its `!`, or `!` itself if nothing does. A second leading
`!` is not part of the name. -/
def localName? (tag : Option Bytes) : Option String :=
  match tag with
  | some (0x21 :: rest) =>
    match Utf8.toString? (if rest.isEmpty then [0x21] else rest) with
    | some name =>
      match name.toList with
      | '!' :: c :: cs => some (.ofList (c :: cs))
      | _ => some name
    | none => none
  | _ => none

/-- The node of a scalar without a local tag. -/
def scalarNode? (tag : Option Bytes) (text : List Char) (style : ScalarStyle) : Option Node :=
  let plain := if style = .plain then resolve? text else some (.string (.ofList text))
  match tag with
  | none => plain
  | some tag =>
    match (Utf8.toString? tag).bind coreTag? with
    | some core => force? core text
    | none => if tag.head? = some 0x21 then plain else some (.string (.ofList text))

/-! ## Nodes -/

/-- Collections that may lie inside one another. -/
def maxDepth : Nat := 128

/-- Copies that each event of a document allows. -/
def copiesPerEvent : Nat := 100

/-- A document as it is read: its events by place. -/
structure Script where
  refs : Array Ref
  anchors : Anchors

namespace Script

def maxCopies (d : Script) : Nat := copiesPerEvent * d.refs.size

mutual

/-- The node that starts at a place, with the place after it and the copies made. `depth` counts
the collections that may still be opened, and `tagged` tells that a local tag has been read. -/
def node? (d : Script) : Nat → Nat → Bool → Nat → Nat → Option (Node × Nat × Nat)
  | 0, _, _, _, _ => none
  | fuel + 1, depth, tagged, place, copies =>
    match d.refs[place]? with
    | none => none
    | some (.copy n) =>
      if copies + 1 > d.maxCopies then none
      else
        match d.anchors.place? n with
        | none => none
        | some target =>
          (node? d fuel depth false target (copies + 1)).map fun (n, _, copies) =>
            (n, place + 1, copies)
    | some (.event e) =>
      let props := match e with
        | .scalar props _ _ => props
        | .sequenceStart props => props
        | .mappingStart props => props
        | _ => {}
      let name := if tagged then none else localName? props.tag
      match name with
      | some name =>
        (node? d fuel depth true place copies).map fun (n, p) => (.tagged name n, p)
      | none =>
        match e with
        | .scalar props text style =>
          let tag := if tagged then none else props.tag
          (scalarNode? tag text style).map (·, place + 1, copies)
        | .sequenceStart _ =>
          match depth with
          | 0 => none
          | depth + 1 => items? d fuel depth [] (place + 1) copies
        | .mappingStart _ =>
          match depth with
          | 0 => none
          | depth + 1 => entries? d fuel depth [] (place + 1) copies
        | _ => none

/-- The items of a sequence from a place on. -/
def items? (d : Script) : Nat → Nat → List Node → Nat → Nat → Option (Node × Nat × Nat)
  | 0, _, _, _, _ => none
  | fuel + 1, depth, done, place, copies =>
    match d.refs[place]? with
    | some (.event .sequenceEnd) => some (.sequence done.reverse, place + 1, copies)
    | _ =>
      match node? d fuel depth false place copies with
      | none => none
      | some (n, place, copies) => items? d fuel depth (n :: done) place copies

/-- The entries of a mapping from a place on. -/
def entries? (d : Script) : Nat → Nat → List (Node × Node) → Nat → Nat → Option (Node × Nat × Nat)
  | 0, _, _, _, _ => none
  | fuel + 1, depth, done, place, copies =>
    match d.refs[place]? with
    | some (.event .mappingEnd) => some (.mapping done.reverse, place + 1, copies)
    | _ =>
      match node? d fuel depth false place copies with
      | none => none
      | some (key, place, copies) =>
        if Node.hasKey key done then none
        else
          match node? d fuel depth false place copies with
          | none => none
          | some (value, place, copies) => entries? d fuel depth ((key, value) :: done) place copies

end

/-- Steps that reading a document can take: every copy and the document itself pass over each event
at most three times. -/
def fuel (d : Script) : Nat := (d.maxCopies + 1) * (3 * d.refs.size + 3)

def read? (d : Script) : Option Node :=
  if d.refs.isEmpty then some .null
  else (d.node? d.fuel maxDepth false 0 0).map (·.1)

end Script

def ofEvents? (events : List Event) : Option Node :=
  (number? {} 0 events).bind fun (refs, anchors) => (Script.mk refs.toArray anchors).read?

/-- The first document of a text, or none if it is malformed. -/
def read? (bytes : Bytes) : Option Node :=
  (events (tokens bytes).list).bind ofEvents?

end DocDrive.Yaml
