import OberonModules.Proofs.Calls

/-!
# Look-ups as backward scans

A look-up goes from scope to scope, and within a scope from link to link. As the open
scopes tile the arena in the order in which they were opened, it meets the slots from
the last one down. So it finds what a scan finds that goes backward through the arena
and knows neither scopes nor links.
-/

namespace OberonModules

namespace Scopes

variable {scopes : Scopes} {start : Nat} {name : String} {entry : Entry}

-- ---------------------------------------------------------------------------
-- The scan
-- ---------------------------------------------------------------------------

/-- The last entry of a name in the slots from `start` on. -/
def scanBack? (scopes : Scopes) (start : Nat) (name : String) : Option Entry :=
  (scopes.arena.extract start scopes.arena.size).findRev? (·.name = name)

theorem findRev?_eq_find? (entries : Array Entry) (name : String) :
    entries.findRev? (·.name = name) = entries.toList.reverse.find? (·.name = name) := by
  rw [Array.findRev?_eq_find?_reverse, ← Array.find?_toList, Array.toList_reverse]

theorem scanBack?_eq (scopes : Scopes) (start : Nat) (name : String) :
    scopes.scanBack? start name =
      (scopes.arena.toList.drop start).reverse.find? (·.name = name) := by
  have hdrop : (scopes.arena.extract start scopes.arena.size).toList =
      scopes.arena.toList.drop start := by
    rw [Array.toList_extract, List.extract_eq_take_drop, List.take_of_length_le (by simp)]
  rw [scanBack?, findRev?_eq_find?, hdrop]

theorem scanBack?_eq_some_iff :
    scopes.scanBack? start name = some entry ↔ entry.name = name ∧
      ∃ before after, scopes.arena.toList.drop start = before ++ entry :: after ∧
        ∀ other ∈ after, other.name ≠ name := by
  simp only [scanBack?_eq, List.find?_eq_some_iff_append, decide_eq_true_eq]
  refine and_congr_right fun _ => ?_
  constructor
  · rintro ⟨after, before, h, hafter⟩
    refine ⟨before.reverse, after.reverse, ?_, by simpa using hafter⟩
    simpa using congrArg List.reverse h
  · rintro ⟨before, after, h, hafter⟩
    exact ⟨after.reverse, before.reverse, by simp [h], by simpa using hafter⟩

theorem scanBack?_eq_none_iff :
    scopes.scanBack? start name = none ↔
      ∀ other ∈ scopes.arena.toList.drop start, other.name ≠ name := by
  simp [scanBack?_eq]

-- ---------------------------------------------------------------------------
-- Look-ups
-- ---------------------------------------------------------------------------

theorem WellFormed.findIn?_eq_findRev? {scope : Scope} {stop : Nat} (h : scopes.WellFormed)
    (ho : scope.Owns scopes.arena stop) (name : String) :
    scopes.findIn? scope name = (scopes.arena.extract scope.start stop).findRev? (·.name = name) := by
  rw [findIn?_eq, h.entriesOf_eq ho, findRev?_eq_find?]

/-- Scope by scope from the inside out is slot by slot from the last one down. -/
theorem WellFormed.findSome?_eq_findRev? {row : List Scope} {stop : Nat} (h : scopes.WellFormed)
    (ht : Tiled scopes.arena row stop) (name : String) :
    row.findSome? (scopes.findIn? · name) =
      (scopes.arena.extract 0 stop).findRev? (·.name = name) := by
  induction ht with
  | nil => simp
  | @cons scope outer stop inner _ ih =>
    have hsplit : scopes.arena.extract 0 stop =
        scopes.arena.extract 0 scope.start ++ scopes.arena.extract scope.start stop := by
      simp [Array.extract_append_extract, inner.start_le]
    rw [List.findSome?_cons, ih, h.findIn?_eq_findRev? inner, hsplit]
    simp only [findRev?_eq_find?, Array.toList_append, List.reverse_append, List.find?_append]
    cases List.find? _ (scopes.arena.extract scope.start stop).toList.reverse <;> rfl

/-- A look-up finds the last entry of the name in the arena, and one in the current scope the last
from the start of that scope on. Every chain on the way comes to an end. -/
structure ScansBackward (scopes : Scopes) (name : String) : Prop where
  walks : scopes.Walks
  lookup?_eq : scopes.lookup? name = scopes.scanBack? 0 name
  findLocal?_eq : scopes.findLocal? name = scopes.scanBack? scopes.current.start name
  scanBack?_eq_some_iff : ∀ start entry, scopes.scanBack? start name = some entry ↔
    entry.name = name ∧ ∃ before after,
      scopes.arena.toList.drop start = before ++ entry :: after ∧
        ∀ other ∈ after, other.name ≠ name
  scanBack?_eq_none_iff : ∀ start, scopes.scanBack? start name = none ↔
    ∀ other ∈ scopes.arena.toList.drop start, other.name ≠ name

end Scopes

/-- After any calls on a fresh table. -/
theorem ScopeTable.scansBackward_run {ρ : Type} [Reporter ρ] (reporter : ρ) (calls : List Call)
    (name : String) : ((new reporter).run calls).value.scopes.ScansBackward name := by
  have h := wellFormed_run reporter calls
  constructor
  case walks => exact h.walks
  case lookup?_eq => exact h.findSome?_eq_findRev? h.tiled name
  case findLocal?_eq => exact h.findIn?_eq_findRev? h.owns_current name
  case scanBack?_eq_some_iff => exact fun _ _ => Scopes.scanBack?_eq_some_iff
  case scanBack?_eq_none_iff => exact fun _ => Scopes.scanBack?_eq_none_iff

end OberonModules
