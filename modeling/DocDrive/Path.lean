import DocDrive.Text.Utf8

/-!
# Paths

A path is a byte string. Its *components* are what repeated slashes, a trailing slash and inner
`.` segments do not change; order, equality of addresses, parents and extensions are read off them.

* `Path.normalize` is `paths.normalize`: it resolves `.` and `..` by spelling alone; `..` at the
  root stays at the root.
* `Path.absolutize` is `paths.absolutize` for a working directory that is known.
* `Path.resolveAgainst` is `paths.resolve_against`: it places a path below a base unless it is
  absolute already.
* `Path.ofComponents` writes components back, so that `normalize` is a function on components.
-/

namespace DocDrive

/-- A path as it is spelled. -/
structure Path where
  bytes : Bytes
  deriving DecidableEq, Repr

inductive Component where
  | root
  | current
  | parent
  | normal (name : Bytes)
  deriving DecidableEq, Repr

namespace Component

def slash : UInt8 := 0x2F

def dot : UInt8 := 0x2E

def bytes : Component → Bytes
  | root => [slash]
  | current => [dot]
  | parent => [dot, dot]
  | normal name => name

/-- Kinds in order: a root before `.`, then `..`, then names. -/
def rank : Component → Nat
  | root => 0
  | current => 1
  | parent => 2
  | normal _ => 3

/-- Byte strings in lexicographic order. -/
def compareBytes : Bytes → Bytes → Ordering
  | [], [] => .eq
  | [], _ :: _ => .lt
  | _ :: _, [] => .gt
  | a :: as, b :: bs =>
    match compare a b with
    | .eq => compareBytes as bs
    | o => o

/-- Components by kind, then names by bytes. -/
def order : Component → Component → Ordering
  | normal a, normal b => compareBytes a b
  | a, b => compare a.rank b.rank

end Component

namespace Path

/-! ## Spelling -/

def ofString (text : String) : Path := ⟨Utf8.ofString text⟩

/-- A path as it is shown to people. -/
def display (p : Path) : String := Utf8.toStringLossy p.bytes

/-- The path as text, if its bytes are text. -/
def toString? (p : Path) : Option String := Utf8.toString? p.bytes

def empty : Path := ⟨[]⟩

instance : Inhabited Path := ⟨empty⟩

def isAbsolute (p : Path) : Bool := p.bytes.head? == some Component.slash

/-! ## Components -/

/-- The segments between slashes, empty ones included. -/
def segments : Bytes → List Bytes
  | [] => [[]]
  | b :: rest =>
    if b = Component.slash then [] :: segments rest
    else
      match segments rest with
      | [] => [[b]]
      | s :: ss => (b :: s) :: ss

/-- A segment that is not the first: nothing between slashes and `.` say nothing. -/
def component? (segment : Bytes) : Option Component :=
  if segment = [] then none
  else if segment = [Component.dot] then none
  else if segment = [Component.dot, Component.dot] then some .parent
  else some (.normal segment)

/-- What a path means: a leading `/` is a root, and only a leading `.` is kept. -/
def components (p : Path) : List Component :=
  match segments p.bytes with
  | [] => []
  | first :: rest =>
    let later := rest.filterMap component?
    if p.isAbsolute then .root :: later
    else if first = [Component.dot] then .current :: later
    else (component? first).toList ++ later

/-- Names joined by slashes. -/
def joinBytes : List Bytes → Bytes
  | [] => []
  | [b] => b
  | b :: rest => b ++ Component.slash :: joinBytes rest

/-- The plain spelling of components. -/
def ofComponents : List Component → Path
  | .root :: rest => ⟨Component.slash :: joinBytes (rest.map Component.bytes)⟩
  | cs => ⟨joinBytes (cs.map Component.bytes)⟩

/-- Two spellings of one address. -/
def same (p q : Path) : Bool := p.components == q.components

/-- Lists of components: step by step, a shorter beginning first. -/
def orderComponents : List Component → List Component → Ordering
  | [], [] => .eq
  | [], _ :: _ => .lt
  | _ :: _, [] => .gt
  | a :: as, b :: bs =>
    match a.order b with
    | .eq => orderComponents as bs
    | o => o

def order (p q : Path) : Ordering := orderComponents p.components q.components

/-- `p` comes no later than `q`. -/
def le (p q : Path) : Bool := p.order q != .gt

/-- `p` lies at or below `q`. -/
def startsWith (p q : Path) : Bool := q.components.isPrefixOf p.components

/-! ## Parts -/

/-- The path without its last step; a root and an empty path have none. -/
def parent (p : Path) : Option Path :=
  match p.components.getLast? with
  | none => none
  | some .root => none
  | some _ => some (ofComponents p.components.dropLast)

/-- The paths above a path, the outermost first. -/
def ancestors (p : Path) : List Path :=
  let above := p.components.dropLast
  (List.range above.length).map fun i => ofComponents (above.take (i + 1))

/-- The last step, if it is a name. -/
def fileName (p : Path) : Option Bytes :=
  match p.components.getLast? with
  | some (.normal name) => some name
  | _ => none

/-- What follows the last dot of the file name, unless the name has no other dot than its first. -/
def extension (p : Path) : Option Bytes :=
  match p.fileName with
  | none => none
  | some name =>
    let back := name.reverse
    let after := (back.takeWhile (· ≠ Component.dot)).reverse
    match back.dropWhile (· ≠ Component.dot) with
    | [] => none
    | [_] => none
    | _ => some after

/-! ## Joining and normal form -/

/-- `b` seen from `a`; an absolute `b` stands for itself. -/
def join (a b : Path) : Path :=
  if b.isAbsolute then b
  else if a.bytes = [] then b
  else if a.bytes.getLast? = some Component.slash then ⟨a.bytes ++ b.bytes⟩
  else ⟨a.bytes ++ Component.slash :: b.bytes⟩

/-- One step onto a normal stack, whose last step is at the head. -/
def pushStep : List Component → Component → List Component
  | _, .root => [.root]
  | stack, .current => stack
  | .normal _ :: below, .parent => below
  | .root :: below, .parent => .root :: below
  | stack, .parent => .parent :: stack
  | stack, .normal name => .normal name :: stack

/-- The steps that remain once `.` and `..` are resolved. -/
def normalComponents (cs : List Component) : List Component :=
  (cs.foldl pushStep []).reverse

/-- The normal spelling of a path, found without looking at any directory. -/
def normalize (p : Path) : Path := ofComponents (normalComponents p.components)

/-- The normal absolute path that `p` names for a process working in `cwd`. -/
def absolutize (cwd p : Path) : Path :=
  if p.isAbsolute then p.normalize else (cwd.join p).normalize

/-- The normal path that `p` names when relative paths start at `base`. -/
def resolveAgainst (base p : Path) : Path :=
  if p.isAbsolute then p.normalize else (base.join p).normalize

/-- A normal path: spelled plainly, without `.`, and with `..` only before any name of a relative
path. -/
structure Normal (p : Path) : Prop where
  plain : ofComponents p.components = p
  settled : normalComponents p.components = p.components

end Path

end DocDrive
