import OberonModules.Scopes

/-!
# The arena

How the open scopes lie in the arena. They tile it, an outer scope before an inner
one, and the links of a scope lead from each of its entries to the slot just
before. Every operation keeps this. A walk along the links of a scope therefore
meets the entries of its tile, latest first, and each of them once.

Serial numbers play no part here: a walk goes by slots alone.
-/

namespace OberonModules

variable {arena arena' : Array Entry} {start slot stop : Nat} {entry : Entry}

theorem slot_lt_size (h : arena[slot]? = some entry) : slot < arena.size :=
  (Array.getElem?_eq_some_iff.mp h).choose

-- ---------------------------------------------------------------------------
-- Arenas that agree below a slot
-- ---------------------------------------------------------------------------

def AgreeBelow (stop : Nat) (arena arena' : Array Entry) : Prop :=
  ∀ slot < stop, arena'[slot]? = arena[slot]?

theorem agreeBelow_push (arena : Array Entry) (entry : Entry) :
    AgreeBelow arena.size arena (arena.push entry) := by
  intro slot h
  rw [Array.getElem?_push, if_neg (Nat.ne_of_lt h)]

theorem agreeBelow_shrink (arena : Array Entry) (stop : Nat) :
    AgreeBelow stop arena (arena.shrink stop) := by
  intro slot h
  rw [Array.shrink_eq_take, Array.take_eq_extract, Array.getElem?_extract]
  simp only [Nat.sub_zero, Nat.zero_add, Nat.lt_min, h, true_and]
  split
  · rfl
  · rename_i hs
    exact (Array.getElem?_eq_none (Nat.le_of_not_lt hs)).symm

theorem getElem?_of_shrink (h : (arena.shrink stop)[slot]? = some entry) :
    arena[slot]? = some entry := by
  have hlt := slot_lt_size h
  rw [Array.size_shrink] at hlt
  rwa [agreeBelow_shrink arena stop slot (Nat.lt_of_lt_of_le hlt (Nat.min_le_left ..))] at h

theorem AgreeBelow.mono (h : AgreeBelow stop arena arena') (hle : slot ≤ stop) :
    AgreeBelow slot arena arena' :=
  fun i hi => h i (Nat.lt_of_lt_of_le hi hle)

theorem AgreeBelow.le_size (h : AgreeBelow stop arena arena') (hle : stop ≤ arena.size) :
    stop ≤ arena'.size := by
  cases stop with
  | zero => exact Nat.zero_le _
  | succ n =>
    have hn := h n (Nat.lt_succ_self n)
    rw [Array.getElem?_eq_getElem hle] at hn
    exact slot_lt_size hn

theorem AgreeBelow.extract_eq (h : AgreeBelow stop arena arena') (hle : stop ≤ arena.size) :
    arena'.extract start stop = arena.extract start stop := by
  apply Array.ext_getElem?
  intro i
  rw [Array.getElem?_extract, Array.getElem?_extract, Nat.min_eq_left hle,
    Nat.min_eq_left (h.le_size hle)]
  split
  · exact h _ (by omega)
  · rfl

theorem AgreeBelow.shrink_eq (h : AgreeBelow arena.size arena arena') :
    arena'.shrink arena.size = arena := by
  rw [Array.shrink_eq_take, Array.take_eq_extract, h.extract_eq (Nat.le_refl _),
    Array.extract_size]

-- ---------------------------------------------------------------------------
-- Links
-- ---------------------------------------------------------------------------

/-- The link of an entry in this slot, in a scope that begins at `start`: to the slot just before,
unless that one lies outside the scope. -/
def linkAt (arena : Array Entry) (start slot : Nat) : Option Handle :=
  if start < slot then arena[slot - 1]?.map Entry.handle else none

theorem linkAt_self (arena : Array Entry) (start : Nat) : linkAt arena start start = none :=
  if_neg (Nat.lt_irrefl start)

theorem linkAt_succ (hle : start ≤ slot) (he : arena[slot]? = some entry) :
    linkAt arena start (slot + 1) = some entry.handle := by
  simp [linkAt, Nat.lt_succ_of_le hle, he]

theorem linkAt_eq_none_iff (hle : stop ≤ arena.size) :
    linkAt arena start stop = none ↔ stop ≤ start := by
  unfold linkAt
  split
  · have hlt : stop - 1 < arena.size := by omega
    simp only [Array.getElem?_eq_getElem hlt, Option.map_some, reduceCtorEq, false_iff]
    omega
  · simp only [true_iff]
    omega

theorem AgreeBelow.linkAt_eq (h : AgreeBelow stop arena arena') (hle : slot ≤ stop) :
    linkAt arena' start slot = linkAt arena start slot := by
  unfold linkAt
  split
  · rw [h (slot - 1) (by omega)]
  · rfl

/-- A walk from the cursor meets these entries and comes to an end: `find` knows every link on the
way, and the last entry has none. -/
inductive Entry.Walk (find : Handle → Option Entry) : Option Handle → List Entry → Prop
  | stop : Walk find none []
  | step {handle : Handle} {entry : Entry} {rest : List Entry} (h : find handle = some entry)
      (hrest : Walk find entry.next rest) : Walk find (some handle) (entry :: rest)

theorem Entry.Walk.follow_eq {entries : List Entry} (h : Entry.Walk find cursor entries)
    (hlimit : entries.length ≤ limit) : Entry.follow find limit cursor = entries := by
  induction h generalizing limit with
  | stop => cases limit <;> rfl
  | step h _ ih =>
    obtain ⟨limit, rfl⟩ : ∃ n, limit = n + 1 := Nat.exists_eq_succ_of_ne_zero
      (Nat.ne_of_gt (Nat.lt_of_lt_of_le (Nat.succ_pos _) hlimit))
    rw [Entry.follow, h]
    exact congrArg _ (ih (Nat.le_of_succ_le_succ hlimit))

/-- A walk from the link at `stop`, with a `find` that knows every entry below `stop` by its
handle, meets the slots from `stop` down to `start`. -/
theorem Entry.walk_linkAt
    (hfind : ∀ slot entry, slot < stop → arena[slot]? = some entry → find entry.handle = some entry)
    (hnext : ∀ slot entry, start ≤ slot → slot < stop → arena[slot]? = some entry →
      entry.next = linkAt arena start slot)
    (hsize : stop ≤ arena.size) :
    Entry.Walk find (linkAt arena start stop) (arena.extract start stop).toList.reverse := by
  induction stop with
  | zero =>
    have hn : linkAt arena start 0 = none := if_neg (Nat.not_lt_zero start)
    rw [hn, Array.extract_empty_of_stop_le_start (Nat.zero_le start)]
    exact .stop
  | succ slot ih =>
    by_cases hle : start ≤ slot
    · have he : arena[slot]? = some arena[slot] := Array.getElem?_eq_getElem hsize
      have hrest := ih (fun i e hi => hfind i e (Nat.lt_succ_of_lt hi))
        (fun i e hs hi => hnext i e hs (Nat.lt_succ_of_lt hi)) (Nat.le_of_succ_le hsize)
      rw [← hnext slot _ hle (Nat.lt_succ_self slot) he] at hrest
      rw [linkAt_succ hle he, Array.extract_succ_right (Nat.lt_succ_of_le hle) hsize,
        Array.toList_push, List.reverse_concat]
      exact .step (hfind slot _ (Nat.lt_succ_self slot) he) hrest
    · have hn : linkAt arena start (slot + 1) = none := if_neg (by omega)
      rw [hn, Array.extract_empty_of_stop_le_start (by omega)]
      exact .stop

theorem Entry.follow_linkAt
    (hfind : ∀ slot entry, slot < stop → arena[slot]? = some entry → find entry.handle = some entry)
    (hnext : ∀ slot entry, start ≤ slot → slot < stop → arena[slot]? = some entry →
      entry.next = linkAt arena start slot)
    (hsize : stop ≤ arena.size) (hlimit : stop ≤ limit) :
    Entry.follow find limit (linkAt arena start stop) =
      (arena.extract start stop).toList.reverse := by
  apply (Entry.walk_linkAt hfind hnext hsize).follow_eq
  rw [List.length_reverse, Array.length_toList, Array.size_extract]
  omega

-- ---------------------------------------------------------------------------
-- Tiles
-- ---------------------------------------------------------------------------

/-- The scope owns the slots from its start up to `stop`: its head is what the link at `stop`
would be, and each of its entries has the link of its slot. -/
structure Scope.Owns (arena : Array Entry) (scope : Scope) (stop : Nat) : Prop where
  start_le : scope.start ≤ stop
  stop_le : stop ≤ arena.size
  head_eq : scope.head = linkAt arena scope.start stop
  next_eq : ∀ slot entry, scope.start ≤ slot → slot < stop → arena[slot]? = some entry →
    entry.next = linkAt arena scope.start slot

variable {scope : Scope} {scopes : List Scope}

/-- The scopes, from the inside out, own all slots below `stop`, each up to where the next inner
one begins. -/
inductive Tiled (arena : Array Entry) : List Scope → Nat → Prop
  | nil : Tiled arena [] 0
  | cons {scope : Scope} {scopes : List Scope} {stop : Nat} (inner : scope.Owns arena stop)
      (outer : Tiled arena scopes scope.start) : Tiled arena (scope :: scopes) stop

theorem Scope.Owns.congr (h : scope.Owns arena stop) (ha : AgreeBelow stop arena arena') :
    scope.Owns arena' stop where
  start_le := h.start_le
  stop_le := ha.le_size h.stop_le
  head_eq := h.head_eq.trans (ha.linkAt_eq (Nat.le_refl stop)).symm
  next_eq := by
    intro slot entry hs hlt he
    rw [ha slot hlt] at he
    rw [h.next_eq slot entry hs hlt he, ha.linkAt_eq (Nat.le_of_lt hlt)]

theorem Tiled.congr (h : Tiled arena scopes stop) (ha : AgreeBelow stop arena arena') :
    Tiled arena' scopes stop := by
  induction h with
  | nil => exact .nil
  | cons inner _ ih => exact .cons (inner.congr ha) (ih (ha.mono inner.start_le))

theorem Tiled.owns (h : Tiled arena scopes stop) (hm : scope ∈ scopes) :
    ∃ stop' ≤ stop, scope.Owns arena stop' := by
  induction h with
  | nil => cases hm
  | cons inner _ ih =>
    rcases List.mem_cons.mp hm with rfl | hm
    · exact ⟨_, Nat.le_refl _, inner⟩
    · obtain ⟨stop', hle, ho⟩ := ih hm
      exact ⟨stop', Nat.le_trans hle inner.start_le, ho⟩

theorem Scope.Owns.push (h : scope.Owns arena arena.size) (entry : Entry)
    (hn : entry.next = scope.head) :
    { scope with head := some entry.handle }.Owns (arena.push entry) (arena.size + 1) where
  start_le := Nat.le_succ_of_le h.start_le
  stop_le := by simp
  head_eq := (linkAt_succ h.start_le (by simp)).symm
  next_eq := by
    intro slot e hs hlt he
    have ha := agreeBelow_push arena entry
    rcases Nat.lt_or_eq_of_le (Nat.le_of_lt_succ hlt) with hlt | rfl
    · rw [ha slot hlt] at he
      rw [h.next_eq slot e hs hlt he, ha.linkAt_eq (Nat.le_of_lt hlt)]
    · rw [Array.getElem?_push_size, Option.some.injEq] at he
      rw [← he, hn, h.head_eq, ha.linkAt_eq (Nat.le_refl _)]

theorem Scope.owns_new (arena : Array Entry) :
    (⟨none, arena.size⟩ : Scope).Owns arena arena.size where
  start_le := Nat.le_refl _
  stop_le := Nat.le_refl _
  head_eq := (linkAt_self arena arena.size).symm
  next_eq := fun _ _ hs hlt => absurd hs (Nat.not_le_of_lt hlt)

-- ---------------------------------------------------------------------------
-- Well-formed scopes
-- ---------------------------------------------------------------------------

namespace Scopes

variable {scopes scopes' : Scopes}

/-- Every entry lies in the slot of its handle, and the open scopes tile the arena. -/
structure WellFormed (scopes : Scopes) : Prop where
  slot_eq : ∀ (slot : Nat) (entry : Entry), scopes.arena[slot]? = some entry →
    entry.handle.slot = slot
  tiled : Tiled scopes.arena (scopes.current :: scopes.outer) scopes.arena.size

theorem WellFormed.owns_current (h : scopes.WellFormed) :
    scopes.current.Owns scopes.arena scopes.arena.size := by
  cases h.tiled with | cons inner _ => exact inner

theorem WellFormed.tiled_outer (h : scopes.WellFormed) :
    Tiled scopes.arena scopes.outer scopes.current.start := by
  cases h.tiled with | cons _ outer => exact outer

theorem wellFormed_empty : empty.WellFormed where
  slot_eq := by simp [empty]
  tiled := .cons (Scope.owns_new #[]) .nil

def newEntry (scopes : Scopes) (name : Ident) (module : ModuleId) : Entry :=
  ⟨scopes.nextHandle, name.name, name.span, module, scopes.current.head⟩

@[simp] theorem arena_insert (scopes : Scopes) (name : Ident) (module : ModuleId) :
    (scopes.insert name module).arena = scopes.arena.push (scopes.newEntry name module) := rfl

theorem getElem?_of_insert {name : Ident} {module : ModuleId}
    (h : (scopes.insert name module).arena[slot]? = some entry) :
    scopes.arena[slot]? = some entry ∨
      slot = scopes.arena.size ∧ scopes.newEntry name module = entry := by
  rw [arena_insert, Array.getElem?_push] at h
  split at h
  · rename_i hs
    exact .inr ⟨hs, Option.some.inj h⟩
  · exact .inl h

theorem WellFormed.insert (h : scopes.WellFormed) (name : Ident) (module : ModuleId) :
    (scopes.insert name module).WellFormed where
  slot_eq := by
    intro slot entry he
    rcases getElem?_of_insert he with hold | ⟨rfl, rfl⟩
    · exact h.slot_eq slot entry hold
    · rfl
  tiled := by
    have ho := h.owns_current.push (scopes.newEntry name module) rfl
    have ha := agreeBelow_push scopes.arena (scopes.newEntry name module)
    rw [arena_insert, Array.size_push]
    exact .cons ho (h.tiled_outer.congr (ha.mono h.owns_current.start_le))

theorem WellFormed.push (h : scopes.WellFormed) : scopes.push.WellFormed where
  slot_eq := h.slot_eq
  tiled := .cons (Scope.owns_new scopes.arena) h.tiled

theorem pop_of_outer_nil (h : scopes.outer = []) : scopes.pop = scopes := by
  unfold pop
  split
  · rfl
  · rename_i he
    simp [h] at he

theorem depth_pred {parent : Scope} {rest : List Scope} (h : scopes.outer = parent :: rest) :
    scopes.depth - 1 = rest.length + 1 := by
  rw [scopes.depth_eq, h]
  rfl

theorem pop_of_outer_cons {parent : Scope} {rest : List Scope}
    (h : scopes.outer = parent :: rest) :
    scopes.pop = { scopes with
      arena := scopes.arena.shrink scopes.current.start
      current := parent
      outer := rest
      depth := scopes.depth - 1
      depth_eq := depth_pred h } := by
  unfold pop
  split
  · rename_i he
    simp [h] at he
  · rename_i he
    rw [h] at he
    cases he
    rfl

theorem getElem?_of_pop (h : scopes.pop.arena[slot]? = some entry) :
    scopes.arena[slot]? = some entry := by
  cases ho : scopes.outer with
  | nil => rwa [pop_of_outer_nil ho] at h
  | cons parent rest =>
    rw [pop_of_outer_cons ho] at h
    exact getElem?_of_shrink h

theorem inserted_pop (scopes : Scopes) : scopes.pop.inserted = scopes.inserted := by
  cases ho : scopes.outer with
  | nil => rw [pop_of_outer_nil ho]
  | cons parent rest => rw [pop_of_outer_cons ho]

theorem WellFormed.pop (h : scopes.WellFormed) : scopes.pop.WellFormed := by
  cases ho : scopes.outer with
  | nil => rwa [pop_of_outer_nil ho]
  | cons parent rest =>
    rw [pop_of_outer_cons ho]
    have hs := h.owns_current
    have ha := agreeBelow_shrink scopes.arena scopes.current.start
    have hsize : (scopes.arena.shrink scopes.current.start).size = scopes.current.start := by
      rw [Array.size_shrink, Nat.min_eq_left (Nat.le_trans hs.start_le hs.stop_le)]
    constructor
    · intro slot entry he
      exact h.slot_eq slot entry (getElem?_of_shrink he)
    · have ht := h.tiled_outer.congr ha
      rw [ho] at ht
      simpa only [hsize] using ht

-- ---------------------------------------------------------------------------
-- Walks
-- ---------------------------------------------------------------------------

theorem WellFormed.atSlot?_handle (h : scopes.WellFormed) (he : scopes.arena[slot]? = some entry) :
    scopes.atSlot? entry.handle = some entry := by
  rw [atSlot?, h.slot_eq slot entry he, he]

theorem WellFormed.entriesOf_eq (h : scopes.WellFormed) (ho : scope.Owns scopes.arena stop) :
    scopes.entriesOf scope = (scopes.arena.extract scope.start stop).toList.reverse := by
  rw [entriesOf, ho.head_eq]
  exact Entry.follow_linkAt (fun _ _ _ => h.atSlot?_handle) ho.next_eq ho.stop_le ho.stop_le

/-- The chain of each open scope ends, and no limit cuts it short: the entries of the scope are all
that following its links leads to. -/
def Walks (scopes : Scopes) : Prop :=
  ∀ scope ∈ scopes.current :: scopes.outer,
    Entry.Walk scopes.atSlot? scope.head (scopes.entriesOf scope)

theorem WellFormed.walks (h : scopes.WellFormed) : scopes.Walks := by
  intro scope hm
  obtain ⟨stop, -, ho⟩ := h.tiled.owns hm
  rw [h.entriesOf_eq ho, ho.head_eq]
  exact Entry.walk_linkAt (fun _ _ _ => h.atSlot?_handle) ho.next_eq ho.stop_le

theorem WellFormed.length_entriesOf (h : scopes.WellFormed) (ho : scope.Owns scopes.arena stop) :
    (scopes.entriesOf scope).length = stop - scope.start := by
  rw [h.entriesOf_eq ho, List.length_reverse, Array.length_toList, Array.size_extract,
    Nat.min_eq_left ho.stop_le]

/-- A change above the slots of a scope does not reach its entries. -/
theorem WellFormed.entriesOf_congr (h : scopes.WellFormed) (h' : scopes'.WellFormed)
    (ho : scope.Owns scopes.arena stop) (ha : AgreeBelow stop scopes.arena scopes'.arena) :
    scopes'.entriesOf scope = scopes.entriesOf scope := by
  rw [h'.entriesOf_eq (ho.congr ha), h.entriesOf_eq ho, ha.extract_eq ho.stop_le]

theorem WellFormed.entries_insert (h : scopes.WellFormed) (name : Ident) (module : ModuleId) :
    (scopes.insert name module).entries =
      scopes.newEntry name module :: scopes.entries := by
  have ho := h.owns_current
  have hi := h.insert name module
  have ha := agreeBelow_push scopes.arena (scopes.newEntry name module)
  have hx : (scopes.arena.push (scopes.newEntry name module)).extract scopes.current.start
      (scopes.arena.size + 1) =
        (scopes.arena.extract scopes.current.start scopes.arena.size).push
          (scopes.newEntry name module) := by
    rw [Array.extract_succ_right (Nat.lt_succ_of_le ho.start_le) (by simp),
      ha.extract_eq (Nat.le_refl _), Array.getElem_push_eq]
  calc (scopes.insert name module).entries
    _ = ((scopes.arena.push (scopes.newEntry name module)).extract scopes.current.start
          (scopes.arena.size + 1)).toList.reverse := by
      rw [entries, hi.entriesOf_eq hi.owns_current, arena_insert, Array.size_push]; rfl
    _ = scopes.newEntry name module ::
          (scopes.arena.extract scopes.current.start scopes.arena.size).toList.reverse := by
      rw [hx, Array.toList_push, List.reverse_concat]
    _ = scopes.newEntry name module :: scopes.entries := by
      rw [entries, h.entriesOf_eq ho]

theorem WellFormed.size_eq (h : scopes.WellFormed) : scopes.size = scopes.entries.length :=
  (h.length_entriesOf h.owns_current).symm

theorem WellFormed.isEmpty_iff (h : scopes.WellFormed) :
    scopes.isEmpty = true ↔ scopes.size = 0 := by
  have ho := h.owns_current
  rw [isEmpty, ho.head_eq, Option.isNone_iff_eq_none, linkAt_eq_none_iff ho.stop_le, size]
  omega

end Scopes

end OberonModules
