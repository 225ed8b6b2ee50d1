import GoGloss.Lexeme
import GoGloss.Proofs.Arena.Growth
import Mathlib.Data.List.Basic

/-!
# The history of an arena

An arena comes about event by event: a node is put into it, a list on its shelf, a
symbol is noted. A history has its latest event in front; `replay` is the arena it
leads to, and `made` lists its nodes, the latest first.

What is stored must be sound when it is stored (`Kept`): a number or a list has been
given out before, an identifier and a literal are lexemes of the source. Since arenas
only grow, all that is stored is sound ever after, and has the meaning it had.
-/

namespace GoGloss.Flat

/-- One change of an arena. -/
inductive Event where
  | alloc {k : Kind} (node : k.Node) (span : Span)
  | shelve {s : Shelf} (items : List s.Item)
  | intern (text : String)

namespace Event

/-- The arena after an event. -/
def apply (a : Arena) : Event → Arena
  | .alloc node span => a.alloc node span
  | .shelve items => a.append items
  | .intern text => a.note text

/-- The number of the node that an event puts into an arena, if it is such an event. -/
def made? (a : Arena) : Event → Option AnyId
  | @alloc k _ _ => some ⟨k, a.size k⟩
  | _ => none

/-- What an event stores. -/
def slots : Event → List Slot
  | @alloc k node _ => k.slots node
  | @shelve s items => items.flatMap s.slots
  | .intern _ => []

theorem grows_apply (a : Arena) (e : Event) : a.Grows (e.apply a) := by
  cases e with
  | alloc node span => exact Arena.grows_alloc node span
  | shelve items => exact Arena.grows_append items
  | intern text => exact Arena.grows_note text

end Event

/-- The arena that a history leads to. -/
def replay : List Event → Arena
  | [] => {}
  | e :: log => e.apply (replay log)

/-- The nodes of a history, the latest first. -/
def made : List Event → List AnyId
  | [] => []
  | e :: log => (e.made? (replay log)).toList ++ made log

theorem grows_replay (more log : List Event) : (replay log).Grows (replay (more ++ log)) := by
  induction more with
  | nil => exact Arena.Grows.refl
  | cons e more ih => exact ih.trans (e.grows_apply _)

/-! ## The nodes of a history -/

/-- The nodes of each kind were made in the order of their numbers. -/
theorem made_numbers (log : List Event) (k : Kind) :
    ((made log).filter (·.kind = k)).map AnyId.raw =
      (List.range ((replay log).size k)).reverse := by
  induction log with
  | nil => cases k <;> rfl
  | cons e log ih =>
      rw [made, replay, List.filter_append, List.map_append, ih]
      cases e with
      | @alloc l node span =>
          by_cases hl : k = l
          · subst hl
            simp [Event.made?, Event.apply, Arena.size_alloc_same, List.range_succ]
          · have hne : ¬l = k := fun h => hl h.symm
            simp [Event.made?, Event.apply, Arena.size_alloc_ne _ node span hl, hne]
      | shelve items => simp [Event.made?, Event.apply]
      | intern text => simp [Event.made?, Event.apply]

/-- The nodes of a history are those of its arena. -/
theorem mem_made {log : List Event} {i : AnyId} :
    i ∈ made log ↔ i.raw < (replay log).size i.kind := by
  have hraw : i.raw ∈ ((made log).filter (·.kind = i.kind)).map AnyId.raw ↔
      i.raw < (replay log).size i.kind := by rw [made_numbers, List.mem_reverse, List.mem_range]
  rw [← hraw]
  constructor
  · intro h
    exact List.mem_map.mpr ⟨i, by simpa using h, rfl⟩
  · intro h
    obtain ⟨j, hj, hji⟩ := List.mem_map.mp h
    obtain ⟨hmem, hkind⟩ := List.mem_filter.mp hj
    obtain rfl : j = i := by
      cases i
      cases j
      simp_all
    exact hmem

/-- The number of the next node has not been given out. -/
theorem next_notMem_made (log : List Event) (k : Kind) : ⟨k, (replay log).size k⟩ ∉ made log :=
  fun h => Nat.lt_irrefl _ (mem_made.mp h)

/-- No node is made twice. -/
theorem nodup_made (log : List Event) : (made log).Nodup := by
  induction log with
  | nil => exact List.nodup_nil
  | cons e log ih =>
      cases e with
      | @alloc k node span => exact List.nodup_cons.mpr ⟨next_notMem_made log k, ih⟩
      | shelve items => exact ih
      | intern text => exact ih

/-- The nodes of a kind are as many as the arena has. -/
theorem length_filter_made (log : List Event) (k : Kind) :
    ((made log).filter (·.kind = k)).length = (replay log).size k := by
  simpa using congrArg List.length (made_numbers log k)

/-! ## Lists that were given out -/

/-- The list was put on its shelf at its place; a list without items need not be. -/
def GivenOut (log : List Event) {s : Shelf} (r : ListRef s) (items : List s.Item) : Prop :=
  (r = .empty ∧ items = []) ∨ ∃ before, .shelve items :: before <:+ log ∧
    r = ⟨((replay before).buffer s).size, items.length⟩

namespace GivenOut

variable {log : List Event} {s : Shelf} {r : ListRef s} {items : List s.Item}

theorem empty : GivenOut log (.empty : ListRef s) [] :=
  .inl ⟨rfl, rfl⟩

/-- The list that is put on its shelf now. -/
theorem shelve (log : List Event) (items : List s.Item) :
    GivenOut (.shelve items :: log) ⟨((replay log).buffer s).size, items.length⟩ items :=
  .inr ⟨log, List.suffix_refl _, rfl⟩

theorem mono (h : GivenOut log r items) (more : List Event) : GivenOut (more ++ log) r items := by
  rcases h with h | ⟨before, hbefore, hr⟩
  · exact .inl h
  · exact .inr ⟨before, hbefore.trans (List.suffix_append _ _), hr⟩

/-- A list that was given out has the items it was given out with. -/
theorem items? (h : GivenOut log r items) : (replay log).items? r = some items := by
  rcases h with ⟨rfl, rfl⟩ | ⟨before, ⟨after, rfl⟩, rfl⟩
  · simp [Arena.items?, ListRef.empty]
  · have hthen : (replay (.shelve items :: before)).items?
        (⟨((replay before).buffer s).size, items.length⟩ : ListRef s) = some items :=
      Arena.items?_append_new (replay before) items
    exact (grows_replay after _).items hthen

theorem length (h : GivenOut log r items) : r.len = items.length := by
  rcases h with ⟨rfl, rfl⟩ | ⟨before, -, rfl⟩ <;> rfl

end GivenOut

/-! ## What is stored is sound -/

/-- There is a lexeme with this token and these bytes. -/
def Written (ls : List Lexeme) (token : Token) (span : Span) : Prop :=
  ∃ l ∈ ls, l.token = token ∧ l.span = span

/-- What is stored has been given out, or is a lexeme. -/
def Sound (ls : List Lexeme) (log : List Event) : Slot → Prop
  | .node i => i.any ∈ made log
  | .ident n => ∃ text, (replay log).symbols.texts[n.sym]? = some text ∧
      Written ls (.name text) n.pos
  | .literal lit => ∃ text, Written ls (.literal lit.kind text) lit.raw
  | .list r => ∃ items, GivenOut log r items

theorem made_suffix (more log : List Event) : made log <:+ made (more ++ log) := by
  induction more with
  | nil => exact List.suffix_refl _
  | cons e more ih => exact ih.trans (List.suffix_append _ _)

theorem Sound.mono {ls : List Lexeme} {log : List Event} {x : Slot} (h : Sound ls log x)
    (more : List Event) : Sound ls (more ++ log) x := by
  cases x with
  | node i => exact (made_suffix more log).subset h
  | ident n =>
      obtain ⟨text, htext, hlexeme⟩ := h
      exact ⟨text, (grows_replay more log).text htext, hlexeme⟩
  | literal lit => exact h
  | list r =>
      obtain ⟨items, hitems⟩ := h
      exact ⟨items, hitems.mono more⟩

/-- All that was stored was sound when it was stored. -/
def Kept (ls : List Lexeme) : List Event → Prop
  | [] => True
  | e :: log => (∀ x ∈ e.slots, Sound ls log x) ∧ Kept ls log

namespace Kept

variable {ls : List Lexeme} {log before : List Event}

theorem suffix (h : Kept ls log) (hbefore : before <:+ log) : Kept ls before := by
  obtain ⟨after, rfl⟩ := hbefore
  induction after with
  | nil => exact h
  | cons e after ih => exact ih h.2

/-- What an event stored was sound before it, and is so still. -/
theorem sound_event (h : Kept ls log) {e : Event} (he : e :: before <:+ log) :
    ∀ x ∈ e.slots, Sound ls before x ∧ Sound ls log x := by
  intro x hx
  have hthen := (h.suffix he).1 x hx
  obtain ⟨after, rfl⟩ := he
  have hnow := (hthen.mono [e]).mono after
  exact ⟨hthen, hnow⟩

/-- What the items of a sound list store is sound. -/
theorem sound_under (h : Kept ls log) {x : Slot} (hx : Sound ls log x) :
    ∀ y ∈ (replay log).under x, Sound ls log y := by
  cases x with
  | list r =>
      obtain ⟨items, hitems⟩ := hx
      rw [Arena.under, hitems.items?]
      rcases hitems with ⟨-, rfl⟩ | ⟨before, hbefore, -⟩
      · simp
      · exact fun y hy => (h.sound_event hbefore y hy).2
  | node _ | ident _ | literal _ => simp [Arena.under]

/-- What a node stores through its lists is sound if what it stores itself is. -/
theorem sound_slots (h : Kept ls log) {k : Kind} {n : k.Node}
    (hn : ∀ x ∈ k.slots n, Sound ls log x) : ∀ x ∈ (replay log).slots n, Sound ls log x := by
  have hspread : ∀ x, Sound ls log x → ∀ y ∈ (replay log).spread x, Sound ls log y :=
    fun x hx => List.forall_mem_cons.mpr ⟨hx, h.sound_under hx⟩
  intro y hy
  obtain ⟨x, hx, hy⟩ := List.mem_flatMap.mp hy
  rcases List.mem_cons.mp hy with rfl | hy
  · exact hn y hx
  · obtain ⟨z, hz, hy⟩ := List.mem_flatMap.mp hy
    exact hspread z (h.sound_under (hn x hx) z hz) y hy

/-- What the items of a sound list store never changes. -/
theorem under_mono {x : Slot} (hx : Sound ls log x) (more : List Event) :
    (replay (more ++ log)).under x = (replay log).under x := by
  cases x with
  | list r =>
      obtain ⟨items, hitems⟩ := hx
      rw [Arena.under, Arena.under, hitems.items?, (hitems.mono more).items?]
  | node _ | ident _ | literal _ => rfl

/-- What a node stores through its lists never changes. -/
theorem slots_mono (h : Kept ls log) {k : Kind} {n : k.Node}
    (hn : ∀ x ∈ k.slots n, Sound ls log x) (more : List Event) :
    (replay (more ++ log)).slots n = (replay log).slots n := by
  refine List.flatMap_congr fun x hx => ?_
  rw [Arena.deep, Arena.deep, under_mono (hn x hx) more]
  congr 1
  refine List.flatMap_congr fun y hy => ?_
  rw [Arena.spread, Arena.spread, under_mono (h.sound_under (hn x hx) y hy) more]

end Kept

/-! ## What is stored in the arena -/

/-- A node of the arena was put there by some event. -/
theorem alloc_of_node? {log : List Event} {k : Kind} {i : NodeId k} {n : k.Node}
    (h : (replay log).node? i = some n) :
    ∃ span before, .alloc n span :: before <:+ log ∧ i.raw = (replay before).size k := by
  induction log with
  | nil => cases k <;> simp [replay, Arena.node?, Arena.store] at h
  | cons e log ih =>
      have hlater : (replay log).node? i = some n →
          ∃ span before, .alloc n span :: before <:+ e :: log ∧
            i.raw = (replay before).size k := by
        intro hi
        obtain ⟨span, before, hbefore, hraw⟩ := ih hi
        exact ⟨span, before, hbefore.trans (List.suffix_cons e log), hraw⟩
      cases e with
      | @alloc l node span =>
          by_cases hi : i.any = ⟨l, (replay log).size l⟩
          · obtain ⟨rfl, hraw⟩ := AnyId.mk.injEq .. ▸ hi
            obtain ⟨raw⟩ := i
            obtain rfl : raw = (replay log).size k := hraw
            obtain rfl : node = n :=
              Option.some.inj ((Arena.node?_alloc_new (replay log) node span).symm.trans h)
            exact ⟨span, log, List.suffix_refl _, rfl⟩
          · exact hlater ((Arena.node?_alloc_of_ne (replay log) node span i hi).symm.trans h)
      | shelve items => exact hlater ((Arena.node?_append (replay log) items i).symm.trans h)
      | intern text => exact hlater ((Arena.node?_note (replay log) text i).symm.trans h)

/-- What lies on a shelf was put there by some event. -/
theorem shelve_of_mem_buffer {log : List Event} {s : Shelf} {item : s.Item}
    (h : item ∈ (replay log).buffer s) :
    ∃ (items : List s.Item) (before : List Event),
      .shelve items :: before <:+ log ∧ item ∈ items := by
  induction log with
  | nil => cases s <;> simp [replay, Arena.buffer] at h
  | cons e log ih =>
      have hlater : item ∈ (replay log).buffer s →
          ∃ (items : List s.Item) (before : List Event),
            .shelve items :: before <:+ e :: log ∧ item ∈ items := by
        intro hitem
        obtain ⟨items, before, hbefore, hmem⟩ := ih hitem
        exact ⟨items, before, hbefore.trans (List.suffix_cons e log), hmem⟩
      cases e with
      | alloc node span =>
          exact hlater (Arena.buffer_alloc (replay log) node span s ▸ h)
      | @shelve t items =>
          by_cases ht : s = t
          · subst ht
            have hbuffer := Arena.buffer_append_same (replay log) items
            rcases Array.mem_append.mp (hbuffer ▸ h) with hmem | hmem
            · exact hlater hmem
            · exact ⟨items, log, List.suffix_refl _, List.mem_toArray.mp hmem⟩
          · exact hlater (Arena.buffer_append_ne (replay log) items ht ▸ h)
      | intern text => exact hlater (Arena.buffer_note (replay log) text s ▸ h)

namespace Kept

variable {ls : List Lexeme} {log : List Event}

/-- What a node of the arena stores was sound before it was made. -/
theorem sound_node (h : Kept ls log) {k : Kind} {i : NodeId k} {n : k.Node}
    (hn : (replay log).node? i = some n) :
    ∃ span before, .alloc n span :: before <:+ log ∧ i.raw = (replay before).size k ∧
      ∀ x ∈ k.slots n, Sound ls before x ∧ Sound ls log x := by
  obtain ⟨span, before, hbefore, hraw⟩ := alloc_of_node? hn
  exact ⟨span, before, hbefore, hraw, h.sound_event hbefore⟩

/-- What a node refers to never changes. -/
theorem refsOf_mono (h : Kept ls log) {i : AnyId} (hi : i ∈ made log) (more : List Event) :
    (replay (more ++ log)).refsOf i = (replay log).refsOf i := by
  have hsome : ((replay log).node? (⟨i.raw⟩ : NodeId i.kind)).isSome :=
    Arena.node?_isSome.mpr (mem_made.mp hi)
  obtain ⟨n, hn⟩ := Option.isSome_iff_exists.mp hsome
  obtain ⟨_, _, _, _, hsound⟩ := h.sound_node hn
  rw [Arena.refsOf, Arena.refsOf, hn, (grows_replay more log).node hn]
  change (replay (more ++ log)).refs n = (replay log).refs n
  rw [Arena.refs, Arena.refs, h.slots_mono (fun x hx => (hsound x hx).2) more]

/-- A node refers to nodes made before it. -/
theorem mem_made_of_mem_refs (h : Kept ls log) {k : Kind} {n : k.Node} {span : Span}
    {before : List Event} (hbefore : .alloc n span :: before <:+ log) :
    ∀ i ∈ (replay log).refs n, i ∈ made before := by
  have hsound := (h.suffix hbefore).1
  have hkept := (h.suffix hbefore).2
  obtain ⟨after, rfl⟩ := hbefore
  have hslots : (replay (after ++ .alloc n span :: before)).slots n = (replay before).slots n := by
    rw [← List.singleton_append, ← List.append_assoc]
    exact hkept.slots_mono hsound _
  intro i hi
  rw [Arena.refs, hslots] at hi
  obtain ⟨x, hx, hid⟩ := List.mem_filterMap.mp hi
  have hxsound := hkept.sound_slots hsound x hx
  cases x with
  | node j =>
      obtain rfl : j.any = i := Option.some.inj hid
      exact hxsound
  | ident _ | literal _ | list _ => cases hid

end Kept

end GoGloss.Flat
