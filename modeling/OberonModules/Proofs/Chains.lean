import OberonModules.Proofs.HandleOrder

/-!
# Chains of links

The links of an entry that still stands lead back through its scope: to every entry that
was declared there before it, the latest first, and to no other. Each link carries the
number of the entry it leads to, so a walk that checks numbers and one that goes by slots
alone meet the same entries.

Nothing here depends on how many insertions there were. Numbers may come again once the
count wraps; a link still leads to the slot just before its own.
-/

namespace OberonModules

open Call

-- ---------------------------------------------------------------------------
-- Insertions that stand
-- ---------------------------------------------------------------------------

/-- The entry that is made right after `before`. -/
def Makes (calls before : List Call) (entry : Entry) : Prop :=
  ∃ call since, calls = before ++ call :: since ∧
    call.created? (Scopes.empty.after before) = some entry

/-- The entry is made right after `before`, and its scope is still open after all calls. -/
def Stands (calls before : List Call) (entry : Entry) : Prop :=
  ∃ call since, calls = before ++ call :: since ∧
    call.created? (Scopes.empty.after before) = some entry ∧ StaysOpen before (call :: since)

/-- The scope that is the current one after the first calls is the current one again after the
second, which go on from there. -/
def SameScope (first second : List Call) : Prop :=
  ∃ between, second = first ++ between ∧ StaysOpen first between ∧
    (ScopeStack.empty.after second).height = (ScopeStack.empty.after first).height

variable {calls first second before : List Call} {entry entry' : Entry}

theorem StaysOpen.append {between since : List Call} (h : StaysOpen first between)
    (h' : StaysOpen (first ++ between) since)
    (hd : (ScopeStack.empty.after (first ++ between)).height =
      (ScopeStack.empty.after first).height) : StaysOpen first (between ++ since) := by
  intro part hp
  rcases List.prefix_or_prefix_of_prefix hp (List.prefix_append between since) with hpart | hpart
  · exact h part hpart
  · obtain ⟨rest, rfl⟩ := hpart
    have hle := h' rest ((List.prefix_append_right_inj between).mp hp)
    rwa [hd, List.append_assoc] at hle

theorem Makes.stands (h : Makes calls first entry) (hs : SameScope first before)
    (hb : Stands calls before entry') : Stands calls first entry := by
  obtain ⟨call, since, hcalls, hcreated⟩ := h
  obtain ⟨between, rfl, hopen, hd⟩ := hs
  obtain ⟨later, rest, hcalls', -, hopen'⟩ := hb
  have hsince : call :: since = between ++ later :: rest := by
    rw [hcalls, List.append_assoc] at hcalls'
    exact List.append_cancel_left hcalls'
  refine ⟨call, since, hcalls, hcreated, ?_⟩
  rw [hsince]
  exact hopen.append hopen' hd

namespace Stands

theorem makes (h : Stands calls before entry) : Makes calls before entry := by
  obtain ⟨call, since, hcalls, hcreated, -⟩ := h
  exact ⟨call, since, hcalls, hcreated⟩

theorem isPrefix (h : Stands calls before entry) : before <+: calls := by
  obtain ⟨call, since, rfl, -⟩ := h
  exact List.prefix_append before (call :: since)

theorem entry_unique (h : Stands calls before entry) (h' : Stands calls before entry') :
    entry = entry' := by
  obtain ⟨call, since, rfl, hcreated, -⟩ := h
  obtain ⟨call', since', hcalls, hcreated', -⟩ := h'
  obtain ⟨rfl, -⟩ := List.cons.inj (List.append_cancel_left hcalls)
  exact Option.some.inj (hcreated.symm.trans hcreated')

theorem restsOn (h : Stands calls before entry) :
    Scopes.RestsOn (Scopes.HoldsAt (Scopes.empty.after before).depth entry.handle.slot entry)
      (Scopes.empty.after calls) := by
  obtain ⟨call, since, rfl, hcreated, hopen⟩ := h
  rw [handle_of_created? hcreated]
  exact Scopes.restsOn_after_created hcreated hopen

theorem getElem?_eq (h : Stands calls before entry) :
    (Scopes.empty.after calls).arena[entry.handle.slot]? = some entry :=
  h.restsOn.getElem?_eq

/-- Along the arena, entries stand in the order in which they were inserted. -/
theorem slot_lt (h : Stands calls first entry) (h' : Stands calls second entry')
    (hlt : first.length < second.length) : entry.handle.slot < entry'.handle.slot := by
  obtain ⟨between, rfl⟩ := List.prefix_of_prefix_length_le h.isPrefix h'.isPrefix hlt.le
  obtain ⟨call, since, hcalls, hcreated, hopen⟩ := h
  obtain ⟨later, rest, hcalls', hcreated', -⟩ := h'
  cases between with
  | nil => simp at hlt
  | cons head between =>
    rw [hcalls, List.append_assoc, List.cons_append] at hcalls'
    obtain ⟨rfl, rfl⟩ := List.cons.inj (List.append_cancel_left hcalls')
    exact Scopes.slot_lt_of_created? hcreated hcreated' hopen.mono

theorem length_lt (h : Stands calls first entry) (h' : Stands calls second entry')
    (hlt : entry.handle.slot < entry'.handle.slot) : first.length < second.length := by
  apply Nat.lt_of_not_le
  intro hle
  rcases Nat.lt_or_eq_of_le hle with hlater | heq
  · exact Nat.lt_asymm hlt (h'.slot_lt h hlater)
  · have hp := List.prefix_of_prefix_length_le h'.isPrefix h.isPrefix hle
    obtain rfl := hp.eq_of_length heq
    rw [h.entry_unique h'] at hlt
    exact Nat.lt_irrefl _ hlt

/-- Of standing entries, those of one scope are those that were inserted at one height. -/
theorem sameScope (h : Stands calls first entry) (h' : Stands calls second entry')
    (hle : first.length ≤ second.length)
    (hd : (ScopeStack.empty.after first).height = (ScopeStack.empty.after second).height) :
    SameScope first second := by
  obtain ⟨between, rfl⟩ := List.prefix_of_prefix_length_le h.isPrefix h'.isPrefix hle
  obtain ⟨call, since, hcalls, -, hopen⟩ := h
  obtain ⟨later, rest, hcalls', -⟩ := h'
  refine ⟨between, rfl, ?_, hd.symm⟩
  rw [hcalls, List.append_assoc] at hcalls'
  rw [List.append_cancel_left hcalls'] at hopen
  exact hopen.mono

end Stands

theorem exists_stands {slot : Nat} (h : (Scopes.empty.after calls).arena[slot]? = some entry) :
    ∃ before, Stands calls before entry := by
  obtain ⟨before, call, since, hcalls, hcreated, hopen⟩ := Scopes.exists_standing h
  exact ⟨before, call, since, hcalls, hcreated, hopen⟩

-- ---------------------------------------------------------------------------
-- Scopes and slots
-- ---------------------------------------------------------------------------

variable {arena : Array Entry} {row : List Scope} {stop : Nat}

/-- The segments of open scopes do not overlap. -/
theorem Tiled.apart (h : Tiled arena row stop) :
    (Scopes.withStops stop row).Pairwise (fun inner outer => outer.2 ≤ inner.1.start) ∧
      ∀ tile ∈ Scopes.withStops stop row, tile.2 ≤ stop := by
  induction h with
  | nil => exact ⟨.nil, by simp [Scopes.withStops]⟩
  | cons inner _ ih =>
    obtain ⟨hpair, hle⟩ := ih
    refine ⟨.cons hle hpair, ?_⟩
    intro tile hm
    rcases List.mem_cons.mp hm with rfl | hm
    · exact Nat.le_refl _
    · exact Nat.le_trans (hle tile hm) inner.start_le

namespace Scopes

variable {scopes base : Scopes} {depth slot : Nat} {tile tile' : Scope × Nat}

theorem OpenedOn.tiles_eq (h : OpenedOn base scopes) :
    scopes.tiles = base.tiles ++ [(scopes.current, scopes.arena.size)] := by
  rw [tiles, withStops, h.outer_eq, h.start_eq, List.reverse_cons]
  rfl

/-- The slot lies in the segment of the scope at this depth. -/
theorem RestsOn.exists_tile (h : RestsOn (HoldsAt depth slot entry) scopes) :
    ∃ tile, scopes.tiles[depth - 1]? = some tile ∧ tile.1.start ≤ slot ∧ slot < tile.2 := by
  induction h with
  | @here scopes h =>
    refine ⟨(scopes.current, scopes.arena.size), ?_, h.start_le, slot_lt_size h.entry_eq⟩
    have hdepth : depth - 1 = (withStops scopes.current.start scopes.outer).reverse.length := by
      rw [← h.depth_eq, scopes.depth_eq, List.length_reverse,
        ← List.length_map Prod.fst, map_fst_withStops]
      rfl
    rw [tiles, withStops, List.reverse_cons, hdepth, List.getElem?_concat_length]
  | opened _ h ih =>
    obtain ⟨tile, htile, hslot⟩ := ih
    have hlt := (List.getElem?_eq_some_iff.mp htile).1
    exact ⟨tile, by rw [h.tiles_eq, List.getElem?_append_left hlt, htile], hslot⟩

theorem WellFormed.tile_unique (h : scopes.WellFormed) {i j : Nat}
    (hi : scopes.tiles[i]? = some tile) (hj : scopes.tiles[j]? = some tile')
    (hs : tile.1.start ≤ slot ∧ slot < tile.2) (hs' : tile'.1.start ≤ slot ∧ slot < tile'.2) :
    i = j := by
  have hpair : scopes.tiles.Pairwise fun outer inner => outer.2 ≤ inner.1.start :=
    List.pairwise_reverse.mpr h.tiled.apart.1
  rw [List.pairwise_iff_getElem] at hpair
  obtain ⟨hi', rfl⟩ := List.getElem?_eq_some_iff.mp hi
  obtain ⟨hj', rfl⟩ := List.getElem?_eq_some_iff.mp hj
  rcases Nat.lt_trichotomy i j with hlt | heq | hlt
  · have hle := hpair i j hi' hj' hlt
    omega
  · exact heq
  · have hle := hpair j i hj' hi' hlt
    omega

-- ---------------------------------------------------------------------------
-- From one slot back to the start of its scope
-- ---------------------------------------------------------------------------

/-- The entries in these slots, the last one first. -/
def slotsBack (scopes : Scopes) (start slot : Nat) : List Entry :=
  (scopes.arena.extract start (slot + 1)).toList.reverse

theorem getElem?_slots {start : Nat} (hs : slot < scopes.arena.size) (i : Nat) :
    (scopes.arena.extract start (slot + 1)).toList[i]? =
      if start + i ≤ slot then scopes.arena[start + i]? else none := by
  rw [Array.getElem?_toList, Array.getElem?_extract, Nat.min_eq_left hs]
  simp only [Nat.lt_sub_iff_add_lt', Nat.lt_succ_iff]

theorem mem_slotsBack_iff {start : Nat} (hs : slot < scopes.arena.size) :
    entry ∈ scopes.slotsBack start slot ↔
      ∃ i, start ≤ i ∧ i ≤ slot ∧ scopes.arena[i]? = some entry := by
  rw [slotsBack, List.mem_reverse, List.mem_iff_getElem?]
  simp only [getElem?_slots hs, Option.ite_none_right_eq_some]
  constructor
  · rintro ⟨i, hle, he⟩
    exact ⟨start + i, Nat.le_add_right .., hle, he⟩
  · rintro ⟨i, hstart, hle, he⟩
    refine ⟨i - start, ?_⟩
    rw [Nat.add_sub_cancel' hstart]
    exact ⟨hle, he⟩

theorem WellFormed.pairwise_slotsBack (h : scopes.WellFormed) (hs : slot < scopes.arena.size)
    (start : Nat) :
    (scopes.slotsBack start slot).Pairwise fun later earlier =>
      earlier.handle.slot < later.handle.slot := by
  rw [slotsBack, List.pairwise_reverse, List.pairwise_iff_getElem]
  have hslot : ∀ i (hi : i < (scopes.arena.extract start (slot + 1)).toList.length),
      (scopes.arena.extract start (slot + 1)).toList[i].handle.slot = start + i := by
    intro i hi
    have he := List.getElem?_eq_getElem hi
    rw [getElem?_slots hs, Option.ite_none_right_eq_some] at he
    exact h.slot_eq _ _ he.2
  intro i j hi hj hlt
  rw [hslot i hi, hslot j hj]
  exact Nat.add_lt_add_left hlt start

theorem WellFormed.entry?_handle (h : scopes.WellFormed)
    (he : scopes.arena[slot]? = some entry) : scopes.entry? entry.handle = some entry :=
  entry?_eq_some_iff.mpr ⟨h.atSlot?_handle he, rfl⟩

/-- However an entry is found by its handle, a walk from it goes back to the start of its scope. -/
theorem walk_slotsBack {find : Handle → Option Entry}
    (hfind : ∀ (slot : Nat) (entry : Entry), scopes.arena[slot]? = some entry →
      find entry.handle = some entry)
    (ho : tile.1.Owns scopes.arena tile.2) (hs : tile.1.start ≤ slot) (hlt : slot < tile.2)
    (he : scopes.arena[slot]? = some entry) :
    Entry.Walk find (some entry.handle) (scopes.slotsBack tile.1.start slot) := by
  rw [← linkAt_succ hs he]
  refine Entry.walk_linkAt (fun i found _ => hfind i found) ?_ (slot_lt_size he)
  intro i found hstart hi
  exact ho.next_eq i found hstart (Nat.lt_of_lt_of_le hi hlt)

theorem length_slotsBack_le (hs : slot < scopes.arena.size) (start : Nat) :
    (scopes.slotsBack start slot).length ≤ scopes.arena.size := by
  rw [slotsBack, List.length_reverse, Array.length_toList, Array.size_extract]
  omega

end Scopes

-- ---------------------------------------------------------------------------
-- From one handle back to the start of its scope
-- ---------------------------------------------------------------------------

/-- Following links from the handle of the entry made right after `before` gives what was declared
in its scope until then. -/
structure EnumeratesScope (calls before : List Call) (scopes : Scopes) (handle : Handle) :
    Prop where
  /-- The walk ends, and every link on it leads to an entry of the same number. -/
  walk : Entry.Walk scopes.entry? (some handle) (scopes.entriesFrom handle)
  walk_slots : Entry.Walk scopes.atSlot? (some handle) (scopes.entriesFrom handle)
  follow_slots : Entry.follow scopes.atSlot? scopes.arena.size (some handle) =
    scopes.entriesFrom handle
  mem_iff : ∀ entry, entry ∈ scopes.entriesFrom handle ↔
    ∃ first, Makes calls first entry ∧ SameScope first before
  latest_first : (scopes.entriesFrom handle).Pairwise fun later earlier =>
    ∀ {first second}, Stands calls first earlier → Stands calls second later →
      first.length < second.length
  nodup : (scopes.entriesFrom handle).Nodup

theorem Stands.mem_slotsBack_iff (h : Stands calls before entry) {tile : Scope × Nat}
    (htile : (Scopes.empty.after calls).tiles[(Scopes.empty.after before).depth - 1]? = some tile)
    (hs : tile.1.start ≤ entry.handle.slot ∧ entry.handle.slot < tile.2) (other : Entry) :
    other ∈ (Scopes.empty.after calls).slotsBack tile.1.start entry.handle.slot ↔
      ∃ first, Makes calls first other ∧ SameScope first before := by
  have hw := Scopes.wellFormed_empty.after calls
  rw [Scopes.mem_slotsBack_iff (slot_lt_size h.getElem?_eq)]
  constructor
  · rintro ⟨slot, hstart, hle, he⟩
    obtain ⟨first, hfirst⟩ := exists_stands he
    have hslot := hw.slot_eq slot other he
    refine ⟨first, hfirst.makes, hfirst.sameScope h ?_ ?_⟩
    · apply Nat.le_of_not_lt
      intro hlater
      have hlt := h.slot_lt hfirst hlater
      omega
    · -- Both slots lie in one segment, and its place among the segments is the height.
      obtain ⟨tile', htile', hs'⟩ := hfirst.restsOn.exists_tile
      rw [hslot] at hs'
      have hdepth := hw.tile_unique htile' htile hs' ⟨hstart, Nat.lt_of_le_of_lt hle hs.2⟩
      have hfirst := (Scopes.empty.after first).depth_eq
      have hbefore := (Scopes.empty.after before).depth_eq
      rw [height_after, height_after]
      omega
  · rintro ⟨first, hmakes, hscope⟩
    have hfirst := hmakes.stands hscope h
    obtain ⟨between, hbefore, -, hd⟩ := hscope
    rw [height_after, height_after] at hd
    obtain ⟨tile', htile', hs'⟩ := hfirst.restsOn.exists_tile
    rw [← hd, htile, Option.some.injEq] at htile'
    subst htile'
    refine ⟨other.handle.slot, hs'.1, ?_, hfirst.getElem?_eq⟩
    apply Nat.le_of_not_lt
    intro hlt
    have hlength := h.length_lt hfirst hlt
    rw [hbefore, List.length_append] at hlength
    omega

theorem Stands.enumeratesScope (h : Stands calls before entry) :
    EnumeratesScope calls before (Scopes.empty.after calls) entry.handle := by
  have hw := Scopes.wellFormed_empty.after calls
  have he := h.getElem?_eq
  have hsize := slot_lt_size he
  obtain ⟨tile, htile, hs⟩ := h.restsOn.exists_tile
  have ho : tile.1.Owns (Scopes.empty.after calls).arena tile.2 :=
    hw.tiled.owns_of_mem_withStops (List.mem_reverse.mp (List.mem_of_getElem? htile))
  -- The walks differ in how an entry is found, and not in the slots that they go through.
  have hchecked := Scopes.walk_slotsBack (fun _ _ => hw.entry?_handle) ho hs.1 hs.2 he
  have hslots := Scopes.walk_slotsBack (fun _ _ => hw.atSlot?_handle) ho hs.1 hs.2 he
  have hlength := Scopes.length_slotsBack_le hsize tile.1.start
  have hpair := hw.pairwise_slotsBack hsize tile.1.start
  have hentries : (Scopes.empty.after calls).entriesFrom entry.handle =
      (Scopes.empty.after calls).slotsBack tile.1.start entry.handle.slot :=
    hchecked.follow_eq hlength
  constructor
  case walk => rwa [hentries]
  case walk_slots => rwa [hentries]
  case follow_slots => rw [hentries, hslots.follow_eq hlength]
  case mem_iff =>
    rw [hentries]
    exact h.mem_slotsBack_iff htile hs
  case latest_first =>
    rw [hentries]
    exact hpair.imp fun hlt first second hfirst hsecond => hfirst.length_lt hsecond hlt
  case nodup =>
    rw [hentries]
    refine hpair.imp fun hlt heq => ?_
    rw [heq] at hlt
    exact Nat.lt_irrefl _ hlt

namespace ScopeTable

/-- After any calls on a fresh table, the links from a handle that has an entry lead through the
scope of that entry, whichever of the open scopes it is, and come to an end. -/
theorem enumeratesScope_run {ρ : Type} [Reporter ρ] (reporter : ρ) (calls : List Call)
    {handle : Handle} {entry : Entry}
    (h : Scopes.entry? ((new reporter).run calls).value.scopes handle = some entry) :
    ∃ before, Stands calls before entry ∧ entry.handle = handle ∧
      EnumeratesScope calls before ((new reporter).run calls).value.scopes handle := by
  have hscopes : ((new reporter).run calls).value.scopes = Scopes.empty.after calls :=
    scopes_run (new reporter) calls
  rw [hscopes] at h ⊢
  obtain ⟨hslot, hserial⟩ := Scopes.entry?_eq_some_iff.mp h
  obtain ⟨before, hstands⟩ := exists_stands hslot
  obtain rfl : entry.handle = handle := by
    have hs := (Scopes.wellFormed_empty.after calls).slot_eq handle.slot entry hslot
    rw [Handle.mk.injEq]
    exact ⟨hs, hserial⟩
  exact ⟨before, hstands, rfl, hstands.enumeratesScope⟩

/-- `C` takes over the slot of `B`, and then a scope is opened on that of `C`. -/
def enclosed : List Call :=
  [.insert ⟨"A", ⟨0, 1⟩⟩ ⟨0⟩, .push, .insert ⟨"B", ⟨2, 3⟩⟩ ⟨1⟩, .pop,
    .declare ⟨"C", ⟨4, 5⟩⟩ ⟨2⟩, .push, .insert ⟨"D", ⟨6, 7⟩⟩ ⟨3⟩]

theorem enumeratesScope_enclosed :
    Scopes.entry? ((new Diagnostics.empty).run enclosed).value.scopes ⟨1, 2⟩ =
        some ⟨⟨1, 2⟩, "C", ⟨4, 5⟩, ⟨2⟩, some ⟨0, 0⟩⟩ ∧
      (∃ before, EnumeratesScope enclosed before
        ((new Diagnostics.empty).run enclosed).value.scopes ⟨1, 2⟩) ∧
      (((new Diagnostics.empty).run enclosed).value.scopes.entriesFrom ⟨1, 2⟩).map Entry.name =
        ["C", "A"] := by
  have hentry : Scopes.entry? ((new Diagnostics.empty).run enclosed).value.scopes ⟨1, 2⟩ =
      some ⟨⟨1, 2⟩, "C", ⟨4, 5⟩, ⟨2⟩, some ⟨0, 0⟩⟩ := by decide
  obtain ⟨before, -, -, hscope⟩ := enumeratesScope_run Diagnostics.empty enclosed hentry
  exact ⟨hentry, ⟨before, hscope⟩, by decide⟩

end ScopeTable

end OberonModules
