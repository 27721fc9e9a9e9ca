import DocDrive.Yaml.Source

/-!
# Literal and folded scalars

A block scalar is introduced by `|` or `>` and holds the lines indented deeper than its parent.
Its header may fix the indentation and say what becomes of the breaks at its end.
-/

namespace DocDrive.Yaml

/-- What becomes of the breaks at the end of a block scalar. -/
inductive Chomping where
  | strip
  | clip
  | keep
  deriving DecidableEq, Repr

/-! ## Header -/

def chomping? : Char → Option Chomping
  | '+' => some .keep
  | '-' => some .strip
  | _ => none

/-- An indentation of one digit, which may not be zero; none given is `0`. -/
def increment? (s : Source) : Option (Nat × Source) :=
  match s.rest with
  | c :: _ =>
    if c == '0' then none
    else if c.isDigit then some (c.toNat - '0'.toNat, s.skip 1)
    else some (0, s)
  | [] => some (0, s)

/-- The signs after the indicator, in either order, and the position after them. -/
def blockHeader? (s : Source) : Option (Chomping × Nat × Source) :=
  match s.rest.head?.bind chomping? with
  | some chomping => (increment? (s.skip 1)).map fun p => (chomping, p.1, p.2)
  | none =>
    match increment? s with
    | none => none
    | some (0, s) => some (.clip, 0, s)
    | some (increment, s) =>
      match s.rest.head?.bind chomping? with
      | some chomping => some (chomping, increment, s.skip 1)
      | none => some (.clip, increment, s)

/-! ## Lines -/

/-- The empty lines here, as breaks in backward order, with the widest indentation seen. The
indentation `0` is not known yet and takes all spaces; a tab where spaces are due is refused. -/
def emptyLines (indent : Nat) : Nat → Nat → List Char → Source → Option (Nat × List Char × Source)
  | 0, _, _, _ => none
  | fuel + 1, widest, breaks, s =>
    let spaces := (s.rest.takeWhile (· == ' ')).length
    let s := s.skip (if indent = 0 then spaces else min spaces (indent - s.column))
    let widest := max widest s.column
    match s.rest with
    | [] => if s.cut then none else some (widest, breaks, s)
    | c :: _ =>
      if (indent = 0 ∨ s.column < indent) ∧ c = '\t' then none
      else if isBreak c then
        let (text, s) := s.readLine
        emptyLines indent fuel widest (text.reverse ++ breaks) s
      else some (widest, breaks, s)

/-- The empty lines here; an indentation not known yet becomes the widest seen, but deeper than the
parent's and at least one. -/
def leadingLines (indent : Nat) (parent : Int) (s : Source) :
    Option (Nat × List Char × Source) :=
  match emptyLines indent (s.size + 1) 0 [] s with
  | none => none
  | some (widest, breaks, s) =>
    let indent := if indent = 0 then max 1 (max widest (parent + 1).toNat) else indent
    some (indent, breaks.reverse, s)

/-- The text between two lines: `first` is the break after the earlier one and `more` the empty
lines. A folded break between two lines that start with no blank is a space, or nothing when empty
lines follow. -/
def between (folded : Bool) (first more : List Char) : List Char :=
  if folded ∧ first = ['\n'] then (if more.isEmpty then [' '] else more) else first ++ more

/-- The lines of a block scalar, backward, then the break after the last line and the empty lines
that follow. -/
def blockLines (literal : Bool) (indent : Nat) (parent : Int) :
    Nat → Bool → List Char → List Char → List Char → Source →
      Option (List Char × List Char × List Char × Source)
  | 0, _, _, _, _, _ => none
  | fuel + 1, wasBlank, done, first, more, s =>
    match s.rest with
    | [] => some (done, first, more, s)
    | c :: _ =>
      if s.column ≠ indent then some (done, first, more, s)
      else
        let isBlankLine := isBlank c
        let done := (between (!literal && !wasBlank && !isBlankLine) first more).reverse ++ done
        match s.takeWhile? (fun c => !isBreak c) with
        | none => none
        | some (line, s) =>
          let (first, s) := s.readLine
          match leadingLines indent parent s with
          | none => none
          | some (_, more, s) =>
            blockLines literal indent parent fuel isBlankLine (line.reverse ++ done) first more s

/-- A block scalar at its indicator, inside a collection indented by `parent`. -/
def blockScalar (literal : Bool) (parent : Int) (s : Source) : Option (List Char × Source) :=
  match blockHeader? (s.skip 1) with
  | none => none
  | some (chomping, increment, s) =>
    match s.endLine? with
    | none => none
    | some s =>
      let indent := if increment = 0 then 0 else (max parent 0).toNat + increment
      match leadingLines indent parent s with
      | none => none
      | some (indent, more, s) =>
        match blockLines literal indent parent (s.size + 1) false [] [] more s with
        | none => none
        | some (done, first, more, s) =>
          let tail := match chomping with
            | .strip => []
            | .clip => first
            | .keep => first ++ more
          some (done.reverse ++ tail, s)

end DocDrive.Yaml
