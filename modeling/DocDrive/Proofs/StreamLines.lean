import DocDrive.Document

/-!
# Streams without data

A YAML stream is called empty after a look at its lines, and those are cut at line feeds alone. The
lines of YAML also end at a carriage return, with or without a line feed behind it, and there a
comment ends as well. So a line that follows a comment after nothing but carriage returns is taken
for a part of that comment.

* `StreamLine`, `streamLines` — the lines of a stream and how they end; `isCut_iff` says that they
  are the only cut of it into such lines.
* `isEmptyStream_eq_isPassed` — the look at the lines between line feeds is one pass over the lines
  of the stream that remembers whether a comment is still going on.
* `no_data_iff_overlooked` — which streams are reported to hold no data.
* `document_behind_comment_overlooked` — a stream with a document that is reported so.
-/

namespace DocDrive

/-! ## Lines -/

namespace Newline

def lineFeed : UInt8 := 0x0A

def carriageReturn : UInt8 := 0x0D

end Newline

/-- How a line of a stream ends before the next one. -/
inductive LineBreak where
  | lineFeed
  | carriageReturn
  | pair
  deriving DecidableEq, Repr

namespace LineBreak

def bytes : LineBreak → Bytes
  | lineFeed => [Newline.lineFeed]
  | carriageReturn => [Newline.carriageReturn]
  | pair => [Newline.carriageReturn, Newline.lineFeed]

end LineBreak

/-- A line, and how it ends; the last line of a stream ends with the stream. -/
structure StreamLine where
  text : Bytes := []
  ending : Option LineBreak := none
  deriving DecidableEq, Repr

namespace StreamLine

/-- A line that holds nothing, or nothing but a comment. -/
def isIdle (l : StreamLine) : Bool := isIdleLine l.text

/-- A line whose first byte that is no blank begins a comment. -/
def isComment (l : StreamLine) : Bool := (l.text.dropWhile isAsciiBlank).head? == some 0x23

/-- The line as it stands in the stream. -/
def bytes (l : StreamLine) : Bytes := l.text ++ (l.ending.map LineBreak.bytes).getD []

end StreamLine

/-- Lines with one more byte at the front of the first. -/
def extendFirst (b : UInt8) : List StreamLine → List StreamLine
  | [] => [{ text := [b] }]
  | l :: lines => { l with text := b :: l.text } :: lines

/-- Lines behind a carriage return, which makes one line break with a line feed right after it. -/
def afterReturn : List StreamLine → List StreamLine
  | ⟨[], some .lineFeed⟩ :: lines => ⟨[], some .pair⟩ :: lines
  | lines => ⟨[], some .carriageReturn⟩ :: lines

/-- The lines of a stream, ended by line feeds, carriage returns and pairs of the two. -/
def streamLines : Bytes → List StreamLine
  | [] => [{}]
  | b :: rest =>
    if b = Newline.lineFeed then ⟨[], some .lineFeed⟩ :: streamLines rest
    else if b = Newline.carriageReturn then afterReturn (streamLines rest)
    else extendFirst b (streamLines rest)

variable {bytes line : Bytes} {lines front back : List StreamLine} {l : StreamLine} {b : UInt8}

theorem afterReturn_cases (lines : List StreamLine) :
    (∃ more, lines = ⟨[], some .lineFeed⟩ :: more ∧ afterReturn lines = ⟨[], some .pair⟩ :: more) ∨
      ((∀ more, lines ≠ ⟨[], some .lineFeed⟩ :: more) ∧
        afterReturn lines = ⟨[], some .carriageReturn⟩ :: lines) := by
  unfold afterReturn
  split
  · rename_i more
    exact Or.inl ⟨more, rfl, rfl⟩
  · rename_i hother
    exact Or.inr ⟨hother, rfl⟩

theorem streamLines_ne_nil (bytes : Bytes) : streamLines bytes ≠ [] := by
  cases bytes with
  | nil => exact List.cons_ne_nil _ _
  | cons b rest =>
    rw [streamLines]
    split
    · exact List.cons_ne_nil _ _
    · split
      · rcases afterReturn_cases (streamLines rest) with ⟨more, -, hafter⟩ | ⟨-, hafter⟩ <;>
          rw [hafter] <;> exact List.cons_ne_nil _ _
      · cases streamLines rest <;> exact List.cons_ne_nil _ _

/-! ## The only cut -/

/-- A text without line breaks. -/
def IsUnbroken (text : Bytes) : Prop :=
  Newline.lineFeed ∉ text ∧ Newline.carriageReturn ∉ text

/-- A stream is cut into lines: no line holds a break, all but the last end with one, and a line is
not ended by a carriage return that has a line feed right behind it. -/
inductive IsCut : Bytes → List StreamLine → Prop
  | last {text : Bytes} : IsUnbroken text → IsCut text [⟨text, none⟩]
  | line {text rest : Bytes} {ending : LineBreak} {lines : List StreamLine} :
      IsUnbroken text → (ending = .carriageReturn → rest.head? ≠ some Newline.lineFeed) →
      IsCut rest lines → IsCut (text ++ (ending.bytes ++ rest)) (⟨text, some ending⟩ :: lines)

theorem isUnbroken_nil : IsUnbroken [] := ⟨List.not_mem_nil, List.not_mem_nil⟩

theorem isUnbroken_cons : IsUnbroken (b :: line) ↔
    (b ≠ Newline.lineFeed ∧ b ≠ Newline.carriageReturn) ∧ IsUnbroken line := by
  simp only [IsUnbroken, List.mem_cons, not_or, ne_comm]
  exact and_and_and_comm

theorem head?_of_streamLines (h : streamLines bytes = ⟨[], some .lineFeed⟩ :: lines) :
    bytes.head? = some Newline.lineFeed := by
  cases bytes with
  | nil => cases h
  | cons b rest =>
    rw [streamLines] at h
    split at h
    · rename_i hfeed
      rw [hfeed]
      rfl
    · split at h
      · obtain ⟨more, -, hafter⟩ | ⟨-, hafter⟩ := afterReturn_cases (streamLines rest)
        all_goals
          rw [hafter] at h
          cases h
      · cases hrest : streamLines rest with
        | nil => exact absurd hrest (streamLines_ne_nil rest)
        | cons l more =>
          rw [hrest] at h
          cases h

theorem streamLines_unbroken_append {text : Bytes} {ending : Option LineBreak}
    (hline : IsUnbroken line) (h : streamLines bytes = ⟨text, ending⟩ :: lines) :
    streamLines (line ++ bytes) = ⟨line ++ text, ending⟩ :: lines := by
  induction line with
  | nil => exact h
  | cons b line ih =>
    obtain ⟨⟨hfeed, hreturn⟩, hline⟩ := isUnbroken_cons.1 hline
    rw [List.cons_append, streamLines, if_neg hfeed, if_neg hreturn, ih hline]
    rfl

theorem streamLines_break_append {ending : LineBreak}
    (h : ending = .carriageReturn → bytes.head? ≠ some Newline.lineFeed) :
    streamLines (ending.bytes ++ bytes) = ⟨[], some ending⟩ :: streamLines bytes := by
  cases ending with
  | lineFeed => rfl
  | pair => rfl
  | carriageReturn =>
    show afterReturn (streamLines bytes) = _
    obtain ⟨more, hmore, -⟩ | ⟨-, hafter⟩ := afterReturn_cases (streamLines bytes)
    · exact absurd (head?_of_streamLines hmore) (h rfl)
    · exact hafter

theorem IsCut.streamLines_eq (h : IsCut bytes lines) : streamLines bytes = lines := by
  induction h with
  | @last text htext =>
    have hline := streamLines_unbroken_append htext (show streamLines [] = _ from rfl)
    rw [List.append_nil] at hline
    exact hline
  | @line text rest ending lines htext hending hrest ih =>
    have hline := streamLines_unbroken_append htext (streamLines_break_append hending)
    rw [hline, ih, List.append_nil]

theorem IsCut.extendFirst (h : IsCut bytes lines) (hfeed : b ≠ Newline.lineFeed)
    (hreturn : b ≠ Newline.carriageReturn) : IsCut (b :: bytes) (extendFirst b lines) := by
  cases h with
  | last htext => exact .last (isUnbroken_cons.2 ⟨⟨hfeed, hreturn⟩, htext⟩)
  | line htext hending hrest =>
    exact .line (isUnbroken_cons.2 ⟨⟨hfeed, hreturn⟩, htext⟩) hending hrest

/-- An empty line in front. -/
theorem IsCut.break {ending : LineBreak} (h : IsCut bytes lines)
    (hending : ending = .carriageReturn → bytes.head? ≠ some Newline.lineFeed) :
    IsCut (ending.bytes ++ bytes) (⟨[], some ending⟩ :: lines) := .line isUnbroken_nil hending h

theorem IsCut.afterReturn (h : IsCut bytes lines) :
    IsCut (Newline.carriageReturn :: bytes) (afterReturn lines) := by
  obtain ⟨more, rfl, hafter⟩ | ⟨hother, hafter⟩ := afterReturn_cases lines
  · rw [hafter]
    cases h with
    | @line _ rest _ _ _ _ hrest =>
      have hpair : IsCut (LineBreak.pair.bytes ++ rest) _ := hrest.break (fun h => by cases h)
      exact hpair
  · rw [hafter]
    have hreturn : IsCut (LineBreak.carriageReturn.bytes ++ bytes)
        (⟨[], some .carriageReturn⟩ :: lines) := by
      refine h.break fun _ hhead => ?_
      obtain ⟨rest, rfl⟩ := List.head?_eq_some_iff.1 hhead
      exact hother (streamLines rest) h.streamLines_eq.symm
    exact hreturn

/-- **The lines of a stream are the only cut of it.** -/
theorem isCut_iff : IsCut bytes lines ↔ streamLines bytes = lines := by
  refine ⟨IsCut.streamLines_eq, ?_⟩
  rintro rfl
  induction bytes with
  | nil => exact .last isUnbroken_nil
  | cons b rest ih =>
    rw [streamLines]
    split
    · rename_i hfeed
      rw [hfeed]
      have hline : IsCut (LineBreak.lineFeed.bytes ++ rest) _ := ih.break (fun h => by cases h)
      exact hline
    · rename_i hfeed
      split
      · rename_i hreturn
        rw [hreturn]
        exact ih.afterReturn
      · rename_i hreturn
        exact ih.extendFirst hfeed hreturn

/-! ## The look at the lines between line feeds -/

/-- Whether a comment is taken to go on behind a line, if `inComment` tells so for its beginning. -/
def StreamLine.carries (inComment : Bool) (l : StreamLine) : Bool :=
  (inComment || l.isComment) && l.ending == some .carriageReturn

/-- Lines as they are looked at: `inComment` tells that the comment of an earlier line goes on. -/
def isPassed (inComment : Bool) : List StreamLine → Bool
  | [] => true
  | l :: lines => (inComment || l.isIdle) && isPassed (l.carries inComment) lines

theorem isIdleLine_cons (b : UInt8) (line : Bytes) :
    isIdleLine (b :: line) = if isAsciiBlank b then isIdleLine line else b == 0x23 := by
  cases hb : isAsciiBlank b with
  | true => rw [isIdleLine, List.dropWhile_cons_of_pos hb]; rfl
  | false => rw [isIdleLine, List.dropWhile_cons_of_neg (by simp [hb])]; rfl

theorem StreamLine.isComment_cons (b : UInt8) (text : Bytes) (ending : Option LineBreak) :
    isComment ⟨b :: text, ending⟩ =
      if isAsciiBlank b then isComment ⟨text, ending⟩ else b == 0x23 := by
  cases hb : isAsciiBlank b with
  | true => rw [isComment, List.dropWhile_cons_of_pos hb]; rfl
  | false => rw [isComment, List.dropWhile_cons_of_neg (by simp [hb])]; rfl

/-- A carriage return is no end of a line for the look. -/
theorem isPassed_afterReturn (inComment : Bool) (lines : List StreamLine) :
    isPassed inComment (afterReturn lines) = isPassed inComment lines := by
  obtain ⟨more, rfl, hafter⟩ | ⟨-, hafter⟩ := afterReturn_cases lines
  · rw [hafter]
    cases inComment <;> rfl
  · rw [hafter]
    cases inComment <;> rfl

/-- The first byte that is no blank decides about a line that is not in a comment. -/
theorem isPassed_extendFirst (inComment : Bool) (b : UInt8) (hlines : lines ≠ []) :
    isPassed inComment (extendFirst b lines) =
      if isAsciiBlank b then isPassed inComment lines
      else (inComment || b == 0x23) && isPassed true lines := by
  cases lines with
  | nil => exact absurd rfl hlines
  | cons l lines =>
    rw [extendFirst, isPassed, isPassed, isPassed, StreamLine.isIdle, isIdleLine_cons,
      StreamLine.carries, StreamLine.isComment_cons]
    cases isAsciiBlank b with
    | true => rfl
    | false => cases inComment <;> cases b == 0x23 <;> rfl

/-- The look at the lines between line feeds, the first of them perhaps in a comment. -/
theorem exists_byteLines_isPassed (bytes : Bytes) : ∃ line lines, byteLines bytes = line :: lines ∧
    ∀ inComment, ((inComment || isIdleLine line) && lines.all isIdleLine) =
      isPassed inComment (streamLines bytes) := by
  induction bytes with
  | nil => exact ⟨[], [], rfl, by decide⟩
  | cons b rest ih =>
    obtain ⟨line, lines, hrest, hpassed⟩ := ih
    rw [byteLines, streamLines, hrest]
    show ∃ l ls, (if b = Newline.lineFeed then [] :: line :: lines else (b :: line) :: lines) =
      l :: ls ∧ _
    by_cases hfeed : b = Newline.lineFeed
    · -- The next line between line feeds is not in a comment.
      rw [if_pos hfeed, if_pos hfeed]
      refine ⟨[], line :: lines, rfl, fun inComment => ?_⟩
      have hnext := hpassed false
      rw [Bool.false_or] at hnext
      rw [List.all_cons, hnext]
      cases inComment <;> rfl
    · rw [if_neg hfeed, if_neg hfeed]
      refine ⟨b :: line, lines, rfl, fun inComment => ?_⟩
      rw [isIdleLine_cons]
      by_cases hreturn : b = Newline.carriageReturn
      · have hblank : isAsciiBlank b = true := by rw [hreturn]; rfl
        rw [if_pos hblank, if_pos hreturn, isPassed_afterReturn]
        exact hpassed inComment
      · rw [if_neg hreturn, isPassed_extendFirst inComment b (streamLines_ne_nil rest)]
        by_cases hblank : isAsciiBlank b = true
        · rw [if_pos hblank, if_pos hblank]
          exact hpassed inComment
        · -- Nothing that follows in the line matters any more.
          rw [if_neg hblank, if_neg hblank, ← hpassed true, Bool.true_or, Bool.true_and]

/-- **The look is one pass over the lines of the stream**: what it forgets at a line feed, it keeps
in mind at a carriage return. -/
theorem isEmptyStream_eq_isPassed (bytes : Bytes) :
    isEmptyStream bytes = isPassed false (streamLines bytes) := by
  obtain ⟨line, lines, hlines, hpassed⟩ := exists_byteLines_isPassed bytes
  rw [isEmptyStream, hlines, List.all_cons, ← hpassed false, Bool.false_or]

/-! ## Lines behind a comment -/

/-- A comment is taken to go on behind these lines: nothing but carriage returns ends the line of
the comment and those after it. -/
def CommentGoesOn (front : List StreamLine) : Prop :=
  ∃ before comment between, front = before ++ comment :: between ∧ comment.isComment = true ∧
    ∀ k ∈ comment :: between, k.ending = some .carriageReturn

theorem not_commentGoesOn_nil : ¬CommentGoesOn [] := by
  rintro ⟨before, comment, between, h, -⟩
  exact List.append_ne_nil_of_right_ne_nil before (List.cons_ne_nil _ _) h.symm

theorem commentGoesOn_cons : CommentGoesOn (l :: front) ↔ CommentGoesOn front ∨
    (l.isComment = true ∧ ∀ k ∈ l :: front, k.ending = some .carriageReturn) := by
  constructor
  · rintro ⟨before, comment, between, h, hcomment, hreturns⟩
    rcases List.cons_eq_append_iff.1 h with ⟨rfl, hback⟩ | ⟨before', rfl, hfront⟩
    · obtain ⟨rfl, rfl⟩ := List.cons.inj hback
      exact Or.inr ⟨hcomment, hreturns⟩
    · exact Or.inl ⟨before', comment, between, hfront, hcomment, hreturns⟩
  · rintro (⟨before, comment, between, rfl, hcomment, hreturns⟩ | ⟨hcomment, hreturns⟩)
    · exact ⟨l :: before, comment, between, rfl, hcomment, hreturns⟩
    · exact ⟨[], l, front, rfl, hcomment, hreturns⟩

/-- What a pass keeps in mind, line by line, is whether a comment goes on. -/
theorem foldl_carries_iff {inComment : Bool} :
    front.foldl StreamLine.carries inComment = true ↔
      CommentGoesOn front ∨ (inComment = true ∧ ∀ k ∈ front, k.ending = some .carriageReturn) := by
  induction front generalizing inComment with
  | nil => simp [not_commentGoesOn_nil]
  | cons l front ih =>
    have hcarries : l.carries inComment = true ↔
        (inComment = true ∨ l.isComment = true) ∧ l.ending = some .carriageReturn := by
      rw [StreamLine.carries, Bool.and_eq_true, Bool.or_eq_true, beq_iff_eq]
    rw [List.foldl_cons, ih, hcarries, commentGoesOn_cons, List.forall_mem_cons, or_assoc,
      ← or_and_right, and_assoc, or_comm (a := inComment = true)]

/-- What a pass lets through: the idle lines, and those that it takes for a part of a comment. -/
theorem isPassed_iff {inComment : Bool} : isPassed inComment lines = true ↔
    ∀ front l back, lines = front ++ l :: back →
      l.isIdle = true ∨ front.foldl StreamLine.carries inComment = true := by
  induction lines generalizing inComment with
  | nil =>
    refine ⟨fun _ front l back h => ?_, fun _ => rfl⟩
    exact absurd h.symm (List.append_ne_nil_of_right_ne_nil front (List.cons_ne_nil _ _))
  | cons first lines ih =>
    rw [isPassed, Bool.and_eq_true, Bool.or_eq_true, ih]
    constructor
    · rintro ⟨hfirst, hrest⟩ front l back h
      rcases List.cons_eq_append_iff.1 h with ⟨rfl, hback⟩ | ⟨front', rfl, hlines⟩
      · obtain ⟨rfl, rfl⟩ := List.cons.inj hback
        exact hfirst.symm
      · exact hrest front' l back hlines
    · intro h
      refine ⟨(h [] first lines rfl).symm, fun front l back hlines => ?_⟩
      exact h (first :: front) l back (by rw [hlines]; rfl)

theorem isEmptyStream_iff : isEmptyStream bytes = true ↔ ∀ front l back,
    streamLines bytes = front ++ l :: back → l.isIdle = true ∨ CommentGoesOn front := by
  rw [isEmptyStream_eq_isPassed, isPassed_iff]
  simp only [foldl_carries_iff, Bool.false_eq_true, false_and, or_false]

theorem isEmptyStream_of_isIdle (h : ∀ l ∈ streamLines bytes, l.isIdle = true) :
    isEmptyStream bytes = true := by
  refine isEmptyStream_iff.2 fun front l back hlines => Or.inl (h l ?_)
  rw [hlines]
  exact List.mem_append_right front List.mem_cons_self

/-- A content line is noticed if no comment of the stream ends at a carriage return alone. -/
theorem isIdle_of_isEmptyStream (hcomments : ∀ l ∈ streamLines bytes, l.isComment = true →
    l.ending ≠ some .carriageReturn) (h : isEmptyStream bytes = true)
    (hl : l ∈ streamLines bytes) : l.isIdle = true := by
  obtain ⟨front, back, hlines⟩ := List.append_of_mem hl
  rcases isEmptyStream_iff.1 h front l back hlines with hidle | hon
  · exact hidle
  · obtain ⟨before, comment, between, rfl, hcomment, hreturns⟩ := hon
    have hmem : comment ∈ streamLines bytes := by
      rw [hlines]
      simp
    exact absurd (hreturns comment List.mem_cons_self) (hcomments comment hmem hcomment)

/-! ## No data -/

theorem Parser.yaml_eq_noData_iff : yaml bytes = .error noData ↔ isEmptyStream bytes = true := by
  rw [yaml]
  cases hempty : isEmptyStream bytes with
  | true => simp
  | false =>
    cases Yaml.read? bytes with
    | none => simp [noData, malformed, Cause.context]
    | some node => simp

/-- **Which streams are reported to hold no data.** A stream is cut into its lines in one way. It is
reported, before anything is read, exactly if each of its lines is blank, is a comment or stands
behind a comment with nothing but carriage returns in between. So a stream of blank lines and
comments is always reported, and if no comment ends at a carriage return alone, no other stream
is. -/
theorem no_data_iff_overlooked (bytes : Bytes) :
    (∀ lines, IsCut bytes lines ↔ streamLines bytes = lines) ∧
    (Parser.yaml bytes = .error Parser.noData ↔ isEmptyStream bytes = true) ∧
    (isEmptyStream bytes = true ↔ ∀ front l back, streamLines bytes = front ++ l :: back →
      l.isIdle = true ∨ CommentGoesOn front) ∧
    ((∀ l ∈ streamLines bytes, l.isIdle = true) → isEmptyStream bytes = true) ∧
    ((∀ l ∈ streamLines bytes, l.isComment = true → l.ending ≠ some .carriageReturn) →
      (isEmptyStream bytes = true ↔ ∀ l ∈ streamLines bytes, l.isIdle = true)) := by
  refine ⟨fun lines => isCut_iff, Parser.yaml_eq_noData_iff, isEmptyStream_iff,
    isEmptyStream_of_isIdle, fun hcomments => ⟨fun h l hl => ?_, isEmptyStream_of_isIdle⟩⟩
  exact isIdle_of_isEmptyStream hcomments h hl

/-- Comments that end with a pair, and blank lines that end with a carriage return. -/
theorem no_data_iff_overlooked_pair :
    (∀ l ∈ streamLines (Utf8.ofString "# c\r\n \r"), l.isComment = true →
      l.ending ≠ some .carriageReturn) ∧
    Parser.yaml (Utf8.ofString "# c\r\n \r") = .error Parser.noData := by
  obtain ⟨-, hyaml, -, -, hidle⟩ := no_data_iff_overlooked (Utf8.ofString "# c\r\n \r")
  have hcomments : ∀ l ∈ streamLines (Utf8.ofString "# c\r\n \r"), l.isComment = true →
      l.ending ≠ some .carriageReturn := by decide
  exact ⟨hcomments, hyaml.2 ((hidle hcomments).2 (by decide))⟩

/-- **A document behind a comment can be overlooked**: the comment ends at a carriage return, and
the next line is a mapping that the reader of YAML would find. -/
theorem document_behind_comment_overlooked :
    streamLines (Utf8.ofString "# c\ra: 1\n") = [⟨Utf8.ofString "# c", some .carriageReturn⟩,
      ⟨Utf8.ofString "a: 1", some .lineFeed⟩, ⟨[], none⟩] ∧
    StreamLine.isIdle ⟨Utf8.ofString "a: 1", some .lineFeed⟩ = false ∧
    Yaml.read? (Utf8.ofString "# c\ra: 1\n") = some (.mapping [(.string "a", .int 1)]) ∧
    Parser.yaml (Utf8.ofString "# c\ra: 1\n") = .error Parser.noData := by
  refine ⟨by decide, by decide, ?_, rfl⟩
  with_unfolding_all rfl

end DocDrive
