import Mathlib.Data.List.Basic
import Mathlib.Data.List.TakeWhile
import OberonModules.Text.Line

/-!
# Lines that LF ends

The lines of a text in which no line ends without an LF, alone or after a CR. Before the
line of a place there are then as many lines as there are LF before the place, and the
line starts just after the last of them. The end of a text that ends with LF is the one
exception: no line begins there, so it belongs to the last line.
-/

namespace OberonModules.Text

-- ---------------------------------------------------------------------------
-- Lines that LF ends
-- ---------------------------------------------------------------------------

/-- LF is the only terminator, but for a CR just before it. -/
def onlyLineFeeds : List Char → Bool
  | [] => true
  | c :: rest =>
    (c = '\n' || !endsLine c || (c = '\r' && rest.head? = some '\n')) && onlyLineFeeds rest

/-- Each line has one LF, as its last character. Only the last line may have none. -/
inductive EndedByLF : List (List Char) → Prop
  | nil : EndedByLF []
  | last {line : List Char} (hne : line ≠ []) (hline : '\n' ∉ line) : EndedByLF [line]
  | cons {line : List Char} {rest : List (List Char)} (hline : '\n' ∉ line)
      (hrest : EndedByLF rest) : EndedByLF ((line ++ ['\n']) :: rest)

variable {rest : List (List Char)} {text line before after : List Char}

theorem endedByLF_linesAfter (done : List (List Char)) (line text : List Char)
    (hline : '\n' ∉ line) (htext : onlyLineFeeds text = true) :
    ∃ more, linesAfter done line text = done.reverse ++ more ∧ EndedByLF more := by
  fun_induction linesAfter done line text with
  | case1 done line =>
    cases line with
    | nil => exact ⟨[], by simp, .nil⟩
    | cons c line =>
      exact ⟨[(c :: line).reverse], by simp, .last (by simp) (by rwa [List.mem_reverse])⟩
  | case2 done line rest ih =>
    simp only [onlyLineFeeds, Bool.and_eq_true] at htext
    obtain ⟨more, hm, he⟩ := ih (by simp) htext.2.2
    refine ⟨(line.reverse ++ ['\r'] ++ ['\n']) :: more, ?_, .cons (by simpa using hline) he⟩
    simpa using hm
  | case3 done line c rest hcrlf hc ih =>
    simp only [onlyLineFeeds, hc, Bool.and_eq_true, Bool.or_eq_true, decide_eq_true_eq,
      Bool.not_true, Bool.false_eq_true, or_false] at htext
    obtain ⟨rfl | ⟨rfl, hr⟩, htext⟩ := htext
    · obtain ⟨more, hm, he⟩ := ih (by simp) htext
      refine ⟨(line.reverse ++ ['\n']) :: more, ?_, .cons (by simpa using hline) he⟩
      simpa using hm
    · obtain ⟨tail, rfl⟩ := List.head?_eq_some_iff.mp hr
      exact absurd rfl (hcrlf tail rfl)
  | case4 done line c rest hcrlf hc ih =>
    simp only [onlyLineFeeds, Bool.and_eq_true] at htext
    have hlf : c ≠ '\n' := by
      rintro rfl
      exact hc rfl
    exact ih (by simp [hlf.symm, hline]) htext.2

theorem endedByLF_lines (h : onlyLineFeeds text = true) : EndedByLF (lines text) := by
  obtain ⟨more, hm, he⟩ := endedByLF_linesAfter [] [] text (by simp) h
  rw [lines, hm]
  exact he

-- ---------------------------------------------------------------------------
-- The line so far
-- ---------------------------------------------------------------------------

/-- The characters of the line so far, where `before` is what stands before a place. -/
def lineSoFar (before : List Char) : List Char :=
  (before.reverse.takeWhile (· ≠ '\n')).reverse

theorem lineSoFar_of_not_mem (h : '\n' ∉ before) : lineSoFar before = before := by
  have hall : before.reverse.takeWhile (· ≠ '\n') = before.reverse := by
    rw [List.takeWhile_eq_self_iff]
    rintro c hc
    simpa using fun he : c = '\n' => h (he ▸ List.mem_reverse.mp hc)
  rw [lineSoFar, hall, List.reverse_reverse]

theorem lineSoFar_append (line before : List Char) :
    lineSoFar (line ++ ['\n'] ++ before) = lineSoFar before := by
  simp only [lineSoFar, List.reverse_append, List.reverse_singleton, List.takeWhile_append]
  split
  · rename_i hall
    rw [(List.takeWhile_prefix _).eq_of_length hall]
    simp
  · rfl

theorem lineSoFar_append_of_not_mem (before : List Char) (h : '\n' ∉ line) :
    lineSoFar (before ++ line) = lineSoFar before ++ line := by
  have hpos : ∀ c ∈ line.reverse, decide (c ≠ '\n') = true := by
    intro c hc
    simpa using fun he : c = '\n' => h (he ▸ List.mem_reverse.mp hc)
  simp only [lineSoFar, List.reverse_append]
  rw [List.takeWhile_append_of_pos hpos, List.reverse_append, List.reverse_reverse]

-- ---------------------------------------------------------------------------
-- The line of a place
-- ---------------------------------------------------------------------------

/-- One of the lines, with those before and those after it, is that of a place. A place is given by
the number of characters before it; the last line also has the end of the text. -/
structure LineOf (lines earlier : List (List Char)) (line : List Char) (later : List (List Char))
    (position : Nat) : Prop where
  lines_eq : lines = earlier ++ line :: later
  start_le : earlier.flatten.length ≤ position
  lt_stop : later ≠ [] → position < earlier.flatten.length + line.length

variable {lines earlier later : List (List Char)} {position : Nat}

theorem exists_lineOf (h : lines ≠ []) (position : Nat) :
    ∃ earlier line later, LineOf lines earlier line later position := by
  induction lines generalizing position with
  | nil => exact absurd rfl h
  | cons line rest ih =>
    by_cases hlast : rest = []
    · exact ⟨[], line, [], by rw [hlast, List.nil_append], by simp, by simp⟩
    · obtain hlt | hle := Nat.lt_or_ge position line.length
      · exact ⟨[], line, rest, rfl, by simp, by simpa using fun _ => hlt⟩
      · obtain ⟨earlier, found, later, rfl, hstart, hstop⟩ := ih hlast (position - line.length)
        refine ⟨line :: earlier, found, later, rfl, ?_, fun hlater => ?_⟩
        · rw [List.flatten_cons, List.length_append]
          omega
        · have hlt := hstop hlater
          rw [List.flatten_cons, List.length_append]
          omega

theorem lineFrom_of_le {index start : Nat} (h : start + line.length ≤ position)
    (hrest : rest ≠ []) :
    lineFrom index start (line :: rest) position =
      lineFrom (index + 1) (start + line.length) rest position := by
  cases rest with
  | nil => exact absurd rfl hrest
  | cons next more => exact if_neg (Nat.not_lt_of_le h)

theorem lineFrom_of_lineOf (h : LineOf lines earlier line later position) (index start : Nat) :
    lineFrom index start lines (start + position) =
      ⟨index + earlier.length, start + earlier.flatten.length, line⟩ := by
  obtain ⟨rfl, hstart, hstop⟩ := h
  induction earlier generalizing index start position with
  | nil =>
    cases later with
    | nil => rfl
    | cons next more =>
      have hlt : position < line.length := by simpa using hstop (by simp)
      exact if_pos (Nat.add_lt_add_left hlt start)
  | cons first earlier ih =>
    rw [List.flatten_cons, List.length_append] at hstart hstop
    obtain ⟨position, rfl⟩ := Nat.exists_eq_add_of_le (Nat.le_of_add_right_le hstart)
    have hrec := ih (index + 1) (start + first.length) (Nat.le_of_add_le_add_left hstart)
      fun hlater => by
        have := hstop hlater
        omega
    rw [List.cons_append, ← Nat.add_assoc, lineFrom_of_le (Nat.le_add_right ..) (by simp), hrec,
      List.flatten_cons, List.length_append, List.length_cons]
    simp [Nat.add_assoc, Nat.add_comm 1]

theorem lineAt_of_lineOf (h : LineOf lines earlier line later position) :
    lineAt lines position = ⟨earlier.length, earlier.flatten.length, line⟩ := by
  have hfrom := lineFrom_of_lineOf h 0 0
  rwa [Nat.zero_add, Nat.zero_add, Nat.zero_add] at hfrom

-- ---------------------------------------------------------------------------
-- Lines and LF
-- ---------------------------------------------------------------------------

/-- A line that LF ends, or the last line without one. -/
theorem EndedByLF.body_or_last (h : EndedByLF (earlier ++ line :: later)) :
    (∃ body, '\n' ∉ body ∧ line = body ++ ['\n']) ∨ (line ≠ [] ∧ '\n' ∉ line ∧ later = []) := by
  induction earlier with
  | nil =>
    cases h with
    | last hne hline => exact .inr ⟨hne, hline, rfl⟩
    | cons hline _ => exact .inl ⟨_, hline, rfl⟩
  | cons first earlier ih =>
    rw [List.cons_append] at h
    generalize hrest : earlier ++ line :: later = rest at h
    cases h with
    | last => simp at hrest
    | cons _ hlines => exact ih (hrest ▸ hlines)

/-- Each line before another one has one LF, and the line after it starts anew. -/
theorem EndedByLF.before_line (h : EndedByLF (earlier ++ line :: later)) :
    earlier.flatten.count '\n' = earlier.length ∧
      ∀ part, lineSoFar (earlier.flatten ++ part) = lineSoFar part := by
  induction earlier with
  | nil => exact ⟨rfl, fun _ => rfl⟩
  | cons first earlier ih =>
    rw [List.cons_append] at h
    generalize hrest : earlier ++ line :: later = rest at h
    cases h with
    | last => simp at hrest
    | @cons body _ hbody hlines =>
      obtain ⟨hcount, hsoFar⟩ := ih (hrest ▸ hlines)
      constructor
      · rw [List.flatten_cons, List.count_append, hcount, List.count_append,
          List.count_eq_zero_of_not_mem hbody, List.length_cons]
        exact Nat.add_comm ..
      · intro part
        rw [List.flatten_cons, List.append_assoc, lineSoFar_append, hsoFar]

/-- What stands before a place is the earlier lines and a part of its own line, all of the line only
at the end of the text. -/
theorem LineOf.before_eq (h : LineOf lines earlier line later before.length)
    (hflat : lines.flatten = before ++ after) :
    ∃ part, before = earlier.flatten ++ part ∧ part <+: line ∧
      (part = line → later = [] ∧ after = []) := by
  obtain ⟨rfl, hstart, hstop⟩ := h
  rw [List.flatten_append, List.flatten_cons] at hflat
  obtain ⟨part, rfl⟩ : earlier.flatten <+: before :=
    List.prefix_of_prefix_length_le (List.prefix_append ..) ⟨after, hflat.symm⟩ hstart
  rw [List.append_assoc, List.append_cancel_left_eq] at hflat
  rw [List.length_append] at hstop
  refine ⟨part, rfl, ?_, ?_⟩
  · by_cases hlater : later = []
    · exact ⟨after, by simpa [hlater] using hflat.symm⟩
    · have hlt := hstop hlater
      exact List.prefix_of_prefix_length_le ⟨after, hflat.symm⟩ (List.prefix_append ..) (by omega)
  · rintro rfl
    have hlater : later = [] := by
      by_contra hne
      exact Nat.lt_irrefl _ (hstop hne)
    exact ⟨hlater, by simpa [hlater] using hflat.symm⟩

/-- The number of lines before a place is that of LF, and its line starts where the line so far
does. Only if the text ends with LF, its end is no such place. -/
theorem EndedByLF.place (h : EndedByLF lines)
    (hline : LineOf lines earlier line later before.length)
    (hflat : lines.flatten = before ++ after)
    (hend : after ≠ [] ∨ before.getLast? ≠ some '\n') :
    earlier.length = before.count '\n' ∧
      before.length = earlier.flatten.length + (lineSoFar before).length := by
  obtain ⟨part, rfl, hpart, hwhole⟩ := hline.before_eq hflat
  rw [hline.lines_eq] at h
  obtain ⟨hcount, hsoFar⟩ := h.before_line
  -- The LF of the line comes last, and the whole line is before the place only at the end.
  have hnot : '\n' ∉ part := by
    obtain ⟨body, hbody, rfl⟩ | ⟨-, hbody, -⟩ := h.body_or_last
    · obtain rfl | hbody' := List.prefix_concat_iff.mp hpart
      · simp [(hwhole rfl).2] at hend
      · exact fun hm => hbody (hbody'.subset hm)
    · exact fun hm => hbody (hpart.subset hm)
  rw [List.count_append, hcount, List.count_eq_zero_of_not_mem hnot, hsoFar,
    lineSoFar_of_not_mem hnot, List.length_append]
  exact ⟨rfl, rfl⟩

/-- The end of a text that ends with LF is on the last line, which has the last LF. -/
theorem EndedByLF.place_end (h : EndedByLF lines)
    (hline : LineOf lines earlier line later before.length) (hflat : lines.flatten = before)
    (hlast : before.getLast? = some '\n') : before.count '\n' = earlier.length + 1 := by
  obtain ⟨rfl, hstart, hstop⟩ := hline
  obtain rfl : later = [] := by
    by_contra hne
    have hlt := hstop hne
    rw [← hflat, List.flatten_append, List.flatten_cons] at hlt
    simp only [List.length_append] at hlt
    omega
  subst hflat
  obtain ⟨hcount, -⟩ := h.before_line
  obtain ⟨body, hbody, rfl⟩ | ⟨hne, hbody, -⟩ := h.body_or_last
  · simp [List.count_append, hcount, List.count_eq_zero_of_not_mem hbody]
  · rw [List.flatten_append, List.flatten_singleton,
      List.getLast?_append_of_ne_nil _ hne] at hlast
    exact absurd (List.mem_of_getLast? hlast) hbody

end OberonModules.Text
