import DocDrive.Error
import DocDrive.Memo
import DocDrive.Reference

/-!
# The structural index of a document

An index tells how many nodes a document has and which references it makes. It keeps the document
that it was built from, so that pointers can be followed, and the path of the file it belongs to.

* `Indexer.references` is `ReferenceIndexer.build`: all nodes are counted, and references are
  collected on demand.
* `StructuralIndex.externalFiles` is `StructuralIndex.external_files`: the files that the references
  name, sorted, each once.
* `StructuralIndex.resolve?` is `StructuralIndex.resolve_pointer`.
-/

namespace DocDrive

structure IndexConfig where
  /-- Where file references start; the directory of the file, if nothing is set. -/
  base : Option Path := none
  /-- Whether references are collected at all. -/
  collect : Bool := true
  deriving DecidableEq, Repr

/-- What is known about the structure of one document. -/
structure StructuralIndex where
  root : Derived Node
  /-- The file that the document was read from. -/
  origin : Option Path := none
  base : Option Path := none
  references : List Reference := []
  nodes : Nat := 0

namespace StructuralIndex

def localReferences (x : StructuralIndex) : List Reference := x.references.filter (·.isLocal)

def externalReferences (x : StructuralIndex) : List Reference := x.references.filter (!·.isLocal)

/-- The directory where file references start. -/
def start (x : StructuralIndex) : Path :=
  match x.base with
  | some base => base
  | none => (x.origin.bind Path.parent).getD .empty

/-- A list without the elements that name the same address as the one before them. -/
def dropRepeats : List Path → List Path
  | [] => []
  | [p] => [p]
  | p :: q :: rest => if p.same q then dropRepeats (p :: rest) else p :: dropRepeats (q :: rest)

/-- The files that the references name, in the order of paths. -/
def externalFiles (x : StructuralIndex) : List Path :=
  let files := x.externalReferences.filterMap Reference.localFile?
  dropRepeats ((files.map fun f => x.start.resolveAgainst (.ofString f)).mergeSort Path.le)

def resolve? (x : StructuralIndex) (pointer : String) : Option Node := x.root.value.resolve? pointer

/-- The index as it belongs to a file. -/
def withOrigin (x : StructuralIndex) (origin : Path) : StructuralIndex :=
  { x with origin := some origin }

end StructuralIndex

/-! ## Indexers -/

/-- Builds the index of a document. -/
abbrev Indexer := Derived Node → IndexConfig → Except Cause StructuralIndex

namespace Indexer

def references : Indexer := fun root config =>
  .ok {
    root
    base := config.base
    references := if config.collect then root.value.references else []
    nodes := root.value.count
  }

/-- An indexer that refuses every document. -/
def failing (message : String) : Indexer := fun _ _ => .error ⟨message, []⟩

/-- An indexer that finds the same references and count in every document. -/
def constant (found : List Reference) (nodes : Nat) : Indexer := fun root config =>
  .ok { root, base := config.base, references := found, nodes }

end Indexer

end DocDrive
