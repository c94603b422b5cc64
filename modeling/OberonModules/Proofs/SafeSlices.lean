import OberonModules.Proofs.Carets

/-!
# Steps that could fail

A location can be found by slices of the source: back from the offset to a character
boundary, then a slice up to there, one from the last LF in it, one from there on, and
one up to the next LF. A step back could go below 0; a slice could be reversed, reach
past the end or cut a character. From no offset does any of this happen, and the way
leads to the location. So for an excerpt, whatever its span, only the limit of the
indentation is left.
-/

namespace OberonModules

open Text

namespace Text

-- ---------------------------------------------------------------------------
-- Back to a boundary
-- ---------------------------------------------------------------------------

/-- Goes back byte by byte to a character boundary. There is none if this would go below 0. -/
def stepBack? (text : List Char) : Nat → Option Nat
  | 0 => if isBoundary text 0 then some 0 else none
  | offset + 1 => if isBoundary text (offset + 1) then some (offset + 1) else stepBack? text offset

theorem isBoundary_zero (text : List Char) : isBoundary text 0 = true :=
  isBoundary_iff.mpr ⟨[], text, rfl, rfl⟩

theorem exists_stepBack? (text : List Char) (offset : Nat) :
    ∃ boundary, stepBack? text offset = some boundary ∧
      IsGreatest {other | isBoundary text other = true ∧ other ≤ offset} boundary := by
  induction offset with
  | zero =>
    refine ⟨0, by simp [stepBack?, isBoundary_zero], ⟨isBoundary_zero text, Nat.le_refl 0⟩, ?_⟩
    exact fun _ hother => hother.2
  | succ offset ih =>
    by_cases hboundary : isBoundary text (offset + 1) = true
    · refine ⟨offset + 1, by simp [stepBack?, hboundary], ⟨hboundary, Nat.le_refl _⟩, ?_⟩
      exact fun _ hother => hother.2
    · obtain ⟨boundary, hback, ⟨hfloor, hle⟩, hgreatest⟩ := ih
      refine ⟨boundary, by simp [stepBack?, hboundary, hback], ⟨hfloor, Nat.le_succ_of_le hle⟩, ?_⟩
      rintro other ⟨hother, hlimit⟩
      -- The offset itself is no boundary, so a boundary up to it is one below it.
      have hne : other ≠ offset + 1 := by
        rintro rfl
        exact hboundary hother
      exact hgreatest ⟨hother, Nat.le_of_lt_succ (Nat.lt_of_le_of_ne hlimit hne)⟩

-- ---------------------------------------------------------------------------
-- Line feeds around a place
-- ---------------------------------------------------------------------------

def firstLF? : List Char → Option Nat
  | [] => none
  | c :: rest => if c = '\n' then some 0 else (firstLF? rest).map (c.utf8Size + ·)

def lastLF? : List Char → Option Nat
  | [] => none
  | c :: rest =>
    ((lastLF? rest).map (c.utf8Size + ·)).or (if c = '\n' then some 0 else none)

variable {line : List Char}

theorem firstLF?_of_not_mem (h : '\n' ∉ line) : firstLF? line = none := by
  induction line with
  | nil => rfl
  | cons c line ih =>
    obtain ⟨hc, hline⟩ := List.ne_and_not_mem_of_not_mem_cons h
    simp [firstLF?, Ne.symm hc, ih hline]

theorem firstLF?_append (h : '\n' ∉ line) (rest : List Char) :
    firstLF? (line ++ '\n' :: rest) = some (byteLength line) := by
  induction line with
  | nil => rfl
  | cons c line ih =>
    obtain ⟨hc, hline⟩ := List.ne_and_not_mem_of_not_mem_cons h
    simp [firstLF?, Ne.symm hc, ih hline]

theorem lastLF?_of_not_mem (h : '\n' ∉ line) : lastLF? line = none := by
  induction line with
  | nil => rfl
  | cons c line ih =>
    obtain ⟨hc, hline⟩ := List.ne_and_not_mem_of_not_mem_cons h
    simp [lastLF?, Ne.symm hc, ih hline]

theorem lastLF?_append (h : '\n' ∉ line) (text : List Char) :
    lastLF? (text ++ '\n' :: line) = some (byteLength text) := by
  induction text with
  | nil => simp [lastLF?, lastLF?_of_not_mem h]
  | cons c text ih => simp [lastLF?, ih]

theorem exists_lineStart (before : List Char) :
    ∃ earlier, before = earlier ++ lineSoFar before ∧
      byteLength earlier = (lastLF? before).elim 0 (· + 1) := by
  have hline := lf_notMem_lineSoFar before
  obtain hbefore | ⟨text, hbefore⟩ := eq_lineSoFar_or_lf before
  · refine ⟨[], by rw [List.nil_append, ← hbefore], ?_⟩
    rw [hbefore, lastLF?_of_not_mem hline]
    rfl
  · refine ⟨text ++ ['\n'], by rw [List.append_assoc, List.singleton_append, ← hbefore], ?_⟩
    rw [hbefore, lastLF?_append hline, byteLength_append]
    rfl

theorem exists_lineStop (before after : List Char) :
    ∃ rest, after = after.takeWhile (· ≠ '\n') ++ rest ∧
      byteLength (before ++ after.takeWhile (· ≠ '\n')) =
        (firstLF? after).elim (byteLength (before ++ after)) (byteLength before + ·) := by
  have hline := lf_notMem_takeWhile after
  obtain hafter | ⟨rest, hafter⟩ := eq_takeWhile_or_lf after
  · rw [← hafter] at hline ⊢
    rw [firstLF?_of_not_mem hline]
    exact ⟨[], (List.append_nil after).symm, rfl⟩
  · refine ⟨'\n' :: rest, hafter, ?_⟩
    have hfirst : firstLF? after = some (byteLength (after.takeWhile (· ≠ '\n'))) := by
      rw [← firstLF?_append hline rest, ← hafter]
    rw [hfirst, byteLength_append]
    rfl

theorem slice?_toEnd (before after : List Char) :
    slice? (before ++ after) (byteLength before) (byteLength (before ++ after)) = some after :=
  slice?_eq_some_iff.mpr ⟨before, [], (List.append_nil _).symm, rfl, rfl⟩

theorem length_le_byteLength (text : List Char) : text.length ≤ byteLength text := by
  induction text with
  | nil => exact Nat.le_refl 0
  | cons c text ih =>
    have hc := c.utf8Size_pos
    rw [byteLength_cons, List.length_cons]
    omega

end Text

namespace Location

open Text

-- ---------------------------------------------------------------------------
-- The way to a location
-- ---------------------------------------------------------------------------

structure Steps where
  /-- The offset, taken back to a character boundary. -/
  floor : Nat
  before : List Char
  lineStart : Nat
  head : List Char
  after : List Char
  lineStop : Nat
  content : List Char

/-- Each step, or none if one of them fails. -/
def steps? (source : List Char) (offset : Nat) : Option Steps := do
  let floor ← stepBack? source (min offset (byteLength source))
  let before ← slice? source 0 floor
  let lineStart := (lastLF? before).elim 0 (· + 1)
  let head ← slice? before lineStart (byteLength before)
  let after ← slice? source floor (byteLength source)
  let lineStop := (firstLF? after).elim (byteLength source) (floor + ·)
  let content ← slice? source lineStart lineStop
  return { floor, before, lineStart, head, after, lineStop, content }

def Steps.location (steps : Steps) : Location :=
  { line := steps.before.count '\n' + 1
    column := steps.head.length + 1
    content := String.ofList steps.content }

/-- The steps lead to the location. All slices are within the source, have their ends in order and
cut no character, and no number on the way is greater than the bytes of the source, and one. -/
structure Steps.Safe (source : List Char) (offset : Nat) (steps : Steps) : Prop where
  location_eq : steps.location = ofOffset source offset
  isFloor : IsFloor source offset steps.floor
  lineStart_le : steps.lineStart ≤ steps.floor
  le_lineStop : steps.floor ≤ steps.lineStop
  lineStop_le : steps.lineStop ≤ byteLength source
  boundary_floor : isBoundary source steps.floor = true
  boundary_lineStart : isBoundary source steps.lineStart = true
  boundary_lineStop : isBoundary source steps.lineStop = true
  line_le : steps.location.line ≤ byteLength source + 1
  column_le : steps.location.column ≤ byteLength source + 1

variable {source before after : List Char} {offset : Nat}

/-- No slice fails, once the offset is back at a boundary. -/
theorem exists_steps?_eq (hback : stepBack? (before ++ after)
    (min offset (byteLength (before ++ after))) = some (byteLength before)) :
    ∃ earlier rest, before = earlier ++ lineSoFar before ∧
      after = after.takeWhile (· ≠ '\n') ++ rest ∧
      steps? (before ++ after) offset = some
        { floor := byteLength before
          before
          lineStart := byteLength earlier
          head := lineSoFar before
          after
          lineStop := byteLength (before ++ after.takeWhile (· ≠ '\n'))
          content := lineSoFar before ++ after.takeWhile (· ≠ '\n') } := by
  obtain ⟨earlier, hearlier, hstart⟩ := exists_lineStart before
  obtain ⟨rest, hrest, hstop⟩ := exists_lineStop before after
  have hbefore : slice? (before ++ after) 0 (byteLength before) = some before :=
    slice?_eq_some_iff.mpr ⟨[], after, rfl, rfl, rfl⟩
  have hhead := slice?_toEnd earlier (lineSoFar before)
  rw [← hearlier] at hhead
  have hcontent : slice? (before ++ after) (byteLength earlier)
      (byteLength (before ++ after.takeWhile (· ≠ '\n'))) =
        some (lineSoFar before ++ after.takeWhile (· ≠ '\n')) := by
    refine slice?_eq_some_iff.mpr ⟨earlier, rest, ?_, rfl, ?_⟩
    · rw [← List.append_assoc, ← hearlier, List.append_assoc, ← hrest]
    · rw [← List.append_assoc, ← hearlier]
  refine ⟨earlier, rest, hearlier, hrest, ?_⟩
  simp only [steps?, hback, hbefore, ← hstart, hhead, slice?_toEnd, ← hstop, hcontent,
    Option.bind_eq_bind, Option.bind_some]
  rfl

theorem exists_steps? (source : List Char) (offset : Nat) :
    ∃ steps, steps? source offset = some steps ∧ steps.Safe source offset := by
  obtain ⟨floor, hback, hfloor⟩ := exists_stepBack? source (min offset (byteLength source))
  obtain ⟨before, after, rfl, rfl⟩ := isBoundary_iff.mp hfloor.1.1
  obtain ⟨earlier, rest, hearlier, hrest, hsteps⟩ := exists_steps?_eq hback
  have hcut := IsFloor.cutFloor_eq hfloor
  have hbefore : byteLength before ≤ byteLength (before ++ after) :=
    byteLength_le_of_prefix (List.prefix_append before after)
  have hlength := length_le_byteLength before
  refine ⟨_, hsteps, ?_⟩
  constructor
  case location_eq => simp [Steps.location, ofOffset, hcut, lineSoFar]
  case isFloor => exact hfloor
  case lineStart_le => exact byteLength_le_of_prefix ⟨lineSoFar before, hearlier.symm⟩
  case le_lineStop => exact byteLength_le_of_prefix (List.prefix_append before _)
  case lineStop_le =>
    exact byteLength_le_of_prefix
      ((List.prefix_append_right_inj before).mpr (after.takeWhile_prefix _))
  case boundary_floor => exact hfloor.1.1
  case boundary_lineStart =>
    refine isBoundary_iff.mpr ⟨earlier, lineSoFar before ++ after, ?_, rfl⟩
    rw [← List.append_assoc, ← hearlier]
  case boundary_lineStop =>
    refine isBoundary_iff.mpr ⟨before ++ after.takeWhile (· ≠ '\n'), rest, ?_, rfl⟩
    rw [List.append_assoc, ← hrest]
  case line_le =>
    have hcount : before.count '\n' ≤ before.length := List.count_le_length
    exact Nat.succ_le_succ (hcount.trans (hlength.trans hbefore))
  case column_le =>
    have hhead : lineSoFar before <:+ before := ⟨earlier, hearlier.symm⟩
    exact Nat.succ_le_succ (hhead.length_le.trans (hlength.trans hbefore))

end Location

-- ---------------------------------------------------------------------------
-- Excerpts
-- ---------------------------------------------------------------------------

/-- The excerpt by the steps to its location, or none if a step fails, if the column is 0 so that
there is none before it, or if the carets cannot be indented. -/
def Diagnostic.excerptBySteps? (diagnostic : Diagnostic) (source : List Char)
    (file : Option String) : Option String := do
  let steps ← Location.steps? source diagnostic.span.start
  guard (1 ≤ steps.location.column)
  let excerpt : Excerpt :=
    { Excerpt.ofDiagnostic diagnostic source file with
      location := steps.location
      carets := Excerpt.caretCount source diagnostic.span steps.location }
  excerpt.render?

theorem Diagnostic.excerptBySteps?_eq (diagnostic : Diagnostic) (source : List Char)
    (file : Option String) :
    diagnostic.excerptBySteps? source file = diagnostic.excerpt? source file := by
  obtain ⟨steps, hsteps, hsafe⟩ := Location.exists_steps? source diagnostic.span.start
  have hguard : (guard (1 ≤ (diagnostic.span.place source).column) : Option Unit) = some () :=
    if_pos (Span.column_place_pos ..)
  rw [Span.place, ← hsafe.location_eq] at hguard
  simp only [excerptBySteps?, hsteps, hguard, Option.bind_eq_bind, Option.bind_some]
  rw [hsafe.location_eq]
  rfl

theorem Excerpt.caretCount_le (source : List Char) (span : Span) (location : Location) :
    caretCount source span location ≤ max 1 location.content.length := by
  rw [caretCount, String.length_toList]
  omega

/-- No step to an excerpt fails, so that it is printed up to the last column that carets can be
indented to, with carets on the line. -/
structure Diagnostic.PrintsSafely (diagnostic : Diagnostic) (source : List Char)
    (file : Option String) : Prop where
  bySteps : diagnostic.excerptBySteps? source file = diagnostic.excerpt? source file
  printed_iff : (diagnostic.excerpt? source file).isSome = true ↔
    (diagnostic.span.place source).column ≤ 65536
  column_pos : 1 ≤ (diagnostic.span.place source).column
  carets : (diagnostic.span.place source).column ≤ 65536 →
    ∃ count, 1 ≤ count ∧ count ≤ max 1 (diagnostic.span.place source).content.length ∧
      diagnostic.PrintsMarks source file
        (spaces ((diagnostic.span.place source).column - 1) ++ run count '^')
  /-- The other rows are indented by as much as a 64-bit number has digits, at the most. -/
  gutter_le : byteLength source < 2 ^ 64 →
    (Excerpt.ofDiagnostic diagnostic source file).gutter.length ≤ 20

theorem Diagnostic.printsSafely (diagnostic : Diagnostic) (source : List Char)
    (file : Option String) : diagnostic.PrintsSafely source file := by
  constructor
  case bySteps => exact diagnostic.excerptBySteps?_eq source file
  case printed_iff =>
    rw [excerpt?, Excerpt.render?, Option.isSome_ite]
    exact Nat.sub_le_iff_le_add
  case column_pos => exact Span.column_place_pos ..
  case carets =>
    intro hcolumn
    exact ⟨_, Nat.le_max_left .., Excerpt.caretCount_le .., printsMarks hcolumn file⟩
  case gutter_le =>
    intro hsize
    obtain ⟨steps, -, hsafe⟩ := Location.exists_steps? source diagnostic.span.start
    have hline := hsafe.line_le
    rw [hsafe.location_eq] at hline
    have hdigits : (toString (diagnostic.span.place source).line).length ≤ 20 :=
      (Nat.length_repr_le_iff (by decide)).mpr (by rw [Span.place]; omega)
    rw [Excerpt.gutter, spaces, length_run]
    exact hdigits

/-- Rendering never fails. -/
theorem Diagnostic.rendersSafely (source : List Char) :
    (∀ offset, ∃ steps, Location.steps? source offset = some steps ∧ steps.Safe source offset) ∧
      ∀ (diagnostic : Diagnostic) (file : Option String), diagnostic.PrintsSafely source file :=
  ⟨Location.exists_steps? source, fun diagnostic file => diagnostic.printsSafely source file⟩

end OberonModules
