import GoGloss.Grammar.Cursor
import GoGloss.Proofs.Arena.Parts

/-!
# An arena that mirrors a workbench

Both readers make the same nodes in the same order, each in its own way. `Mirror`
says how an arena and a workbench of trees stand to each other at any time, and
`Match` adds what the reader of arenas has in its hands: parts that hold, and books
that account for all nodes.

There are three steps: a node is made of parts, a list of parts goes on its shelf, a
name is taken. Each keeps the mirror, since what was there stays as it was.
-/

namespace GoGloss.Flat

open Grammar

/-- The nodes of an arena stand for the trees on a workbench, number by number. -/
structure Mirror (ls : List Lexeme) (log : List Event) (w : Workbench) : Prop where
  kept : Kept ls log
  symbols : (replay log).symbols = w.symbols
  size : ∀ k, (replay log).size k = (trees w k).size
  spans : ∀ k, ((replay log).store k).spans = (trees w k).map k.span
  node : ∀ {k : Kind} {i : NodeId k} {t : k.Tree}, (trees w k)[i.raw]? = some t →
    ∃ n ps, (replay log).node? i = some n ∧ k.Of n t ps ∧ ∀ p ∈ ps, p.Holds ls log w

variable {ls : List Lexeme} {log : List Event} {w : Workbench}

theorem mirror_nil (ls : List Lexeme) : Mirror ls [] {} where
  kept := trivial
  symbols := rfl
  size k := by cases k <;> rfl
  spans k := by cases k <;> simp [replay, Arena.store, trees]
  node {k i t} h := by cases k <;> simp [trees] at h

namespace Mirror

/-- What is stored has the shape of what it stands for. -/
theorem of_standsFor (h : Mirror ls log w) {k : Kind} {i : NodeId k} {t : k.Tree}
    (hi : StandsFor log w i t) :
    ∃ n ps, (replay log).node? i = some n ∧ k.Of n t ps ∧ ∀ p ∈ ps, p.Holds ls log w :=
  h.node hi.2

theorem span_eq (h : Mirror ls log w) {k : Kind} {i : NodeId k} {t : k.Tree}
    (hi : StandsFor log w i t) : (replay log).span i = k.span t := by
  rw [Arena.span, h.spans k, Array.getD_eq_getD_getElem?, Array.getElem?_map, hi.2]
  rfl

section Alloc

variable {k : Kind} {n : k.Node} {t : k.Tree} {ps : List Part}

/-- The slots of a node made of parts that hold are sound. -/
theorem sound_slots (hof : k.Of n t ps) (hps : ∀ p ∈ ps, p.Holds ls log w) :
    ∀ x ∈ k.slots n, Sound ls log x := by
  intro x hx
  have hmem : x ∈ (k.slots n).flatMap (replay log).deep :=
    List.mem_flatMap.mpr ⟨x, hx, List.mem_cons_self⟩
  rw [hof.fits.slots hps] at hmem
  obtain ⟨p, hp, hx⟩ := List.mem_flatMap.mp hmem
  exact (hps p hp).sound x hx

/-- A node and a tree are made of parts. -/
theorem alloc (h : Mirror ls log w) (hof : k.Of n t ps) (hps : ∀ p ∈ ps, p.Holds ls log w) :
    Mirror ls (.alloc n (k.span t) :: log) (addTree w t) where
  kept := ⟨sound_slots hof hps, h.kept⟩
  symbols := by simpa [replay, Event.apply] using h.symbols
  size l := by
    by_cases hl : l = k
    · subst hl
      rw [replay, Event.apply, Arena.size_alloc_same, trees_addTree_same, h.size, Array.size_push]
    · rw [replay, Event.apply, Arena.size_alloc_ne _ _ _ hl, trees_addTree_ne _ _ hl, h.size]
  spans l := by
    by_cases hl : l = k
    · subst hl
      rw [replay, Event.apply, Arena.store_alloc_same, trees_addTree_same, Array.map_push,
        ← h.spans]
      rfl
    · rw [replay, Event.apply, Arena.store_alloc_ne _ _ _ hl, trees_addTree_ne _ _ hl, h.spans]
  node {l i u} hu := by
    by_cases hi : i.any = ⟨k, (replay log).size k⟩
    · obtain ⟨rfl, hraw⟩ := AnyId.mk.injEq .. ▸ hi
      obtain ⟨raw⟩ := i
      obtain rfl : raw = (replay log).size l := hraw
      rw [trees_addTree_same, h.size, Array.getElem?_push_size] at hu
      obtain rfl := Option.some.inj hu
      exact ⟨n, ps, Arena.node?_alloc_new _ _ _, hof, fun p hp =>
        (hps p hp).mono [_] (trees_addTree_of_some t)⟩
    · have hold : (trees w l)[i.raw]? = some u := by
        by_cases hl : l = k
        · subst hl
          rw [trees_addTree_same, Array.getElem?_push, ← h.size, if_neg] at hu
          · exact hu
          · exact fun hraw => hi (by rw [NodeId.any, hraw])
        · rwa [trees_addTree_ne _ _ hl] at hu
      obtain ⟨m, qs, hm, hofm, hqs⟩ := h.node hold
      exact ⟨m, qs, (Arena.grows_alloc n _).node hm, hofm, fun q hq =>
        (hqs q hq).mono [_] (trees_addTree_of_some t)⟩

end Alloc

/-- Events that only the arena sees. -/
theorem of_not_made (h : Mirror ls log w) {e : Event} {w' : Workbench}
    (hstored : ∀ x ∈ e.slots, Sound ls log x)
    (hsymbols : (e.apply (replay log)).symbols = w'.symbols)
    (hstore : ∀ k, (e.apply (replay log)).store k = (replay log).store k)
    (htrees : ∀ k, trees w' k = trees w k) : Mirror ls (e :: log) w' where
  kept := ⟨hstored, h.kept⟩
  symbols := hsymbols
  size k := by rw [replay, Arena.size, hstore, htrees, ← h.size, Arena.size]
  spans k := by rw [replay, hstore, htrees, h.spans]
  node {k i t} ht := by
    rw [htrees] at ht
    obtain ⟨n, ps, hn, hof, hps⟩ := h.node ht
    refine ⟨n, ps, (e.grows_apply _).node hn, hof, fun p hp => (hps p hp).mono [e] ?_⟩
    intro l j u hu
    rwa [htrees]

end Mirror

/-! ## With parts in hand -/

/-- Where the readers stand, the arena and the workbench match, and parts are in hand. -/
structure Match (ls : List Lexeme) (c : Cursor) (log : List Event) (ps : List Part) : Prop where
  rest : c.rest <:+ ls
  mirror : Mirror ls log c.bench
  parts : ∀ p ∈ ps, p.Holds ls log c.bench
  books : Books log (ps.flatMap Part.held)

namespace Match

variable {c c' : Cursor} {H ps qs : List Part}

/-- The bench is all that matters of a cursor, besides what is ahead. -/
theorem move (h : Match ls c log ps) (hrest : c'.rest <:+ c.rest) (hbench : c'.bench = c.bench) :
    Match ls c' log ps where
  rest := hrest.trans h.rest
  mirror := hbench ▸ h.mirror
  parts := hbench ▸ h.parts
  books := h.books

/-- Parts may be exchanged for others that are as good. -/
theorem exchange (h : Match ls c log ps) (hparts : ∀ q ∈ qs, q.Holds ls log c.bench)
    (hheld : (qs.flatMap Part.held).Perm (ps.flatMap Part.held)) : Match ls c log qs where
  rest := h.rest
  mirror := h.mirror
  parts := hparts
  books := h.books.perm hheld

/-- A node in hand has the span of its tree. -/
theorem span_eq (h : Match ls c log ps) {k : Kind} {i : NodeId k} {t : k.Tree}
    (hi : .node i t ∈ ps) : (replay log).span i = k.span t :=
  h.mirror.span_eq (h.parts (.node i t) hi)

/-- What a part puts into a node that refers to others, in terms of the nodes it hands over. -/
theorem filterMap_slots {p : Part} (h : p.Holds ls log w) :
    p.slots.filterMap Slot.id? = p.dropped.flatMap (replay log).refsOf ++ p.taken := by
  cases p with
  | node _ _ | ident _ _ | literal _ | list _ _ => rfl
  | label i n name =>
      have hnode : (replay log).node? (⟨i.raw⟩ : ExprId) = some (.ident n) := h.1
      have hrefs : (replay log).refsOf i.any = [] := by
        change ((replay log).node? (⟨i.raw⟩ : ExprId)).elim [] (replay log).refs = []
        rw [hnode]
        rfl
      simp [Part.slots, Part.dropped, Part.taken, Slot.id?, hrefs]
  | header s i x =>
      have hnode : (replay log).node? (⟨s.raw⟩ : StmtId) = some (.expr i) := h.1
      have hrefs : (replay log).refsOf s.any = [i.any] := by
        change ((replay log).node? (⟨s.raw⟩ : StmtId)).elim [] (replay log).refs = [i.any]
        rw [hnode]
        rfl
      simp [Part.slots, Part.dropped, Part.taken, Slot.id?, hrefs]

/-- Labels and headers leave nothing behind themselves. -/
theorem behindOf_dropped {p : Part} (h : p.Holds ls log w) :
    p.dropped.flatMap (replay log).behindOf = [] := by
  cases p with
  | node _ _ | ident _ _ | literal _ | list _ _ => rfl
  | label i n name =>
      have hnode : (replay log).node? (⟨i.raw⟩ : ExprId) = some (.ident n) := h.1
      change (((replay log).node? (⟨i.raw⟩ : ExprId)).elim [] Kind.expr.behind) ++ [] = []
      rw [hnode]
      rfl
  | header s i x =>
      have hnode : (replay log).node? (⟨s.raw⟩ : StmtId) = some (.expr i) := h.1
      change (((replay log).node? (⟨s.raw⟩ : StmtId)).elim [] Kind.stmt.behind) ++ [] = []
      rw [hnode]
      rfl

/-- A node is made of parts in hand, and held instead of them. -/
theorem alloc {k : Kind} {n : k.Node} {t : k.Tree} (h : Match ls c log (H ++ ps))
    (hof : k.Of n t ps) :
    Match ls { c with bench := addTree c.bench t } (.alloc n (k.span t) :: log)
      (H ++ [.node ⟨(replay log).size k⟩ t]) where
  rest := h.rest
  mirror := h.mirror.alloc hof (List.forall_mem_append.mp h.parts).2
  parts := by
    refine List.forall_mem_append.mpr ⟨fun p hp => ?_, ?_⟩
    · exact (h.parts p (List.mem_append_left _ hp)).mono [_] (trees_addTree_of_some t)
    · refine List.forall_mem_singleton.mpr ⟨List.mem_cons_self, ?_⟩
      change (trees (addTree c.bench t) k)[(replay log).size k]? = some t
      rw [trees_addTree_same, h.mirror.size, Array.getElem?_push_size]
  books := by
    have hps := (List.forall_mem_append.mp h.parts).2
    have hfits : Fits ls log c.bench (k.slots n) (k.behind n) ps := hof.fits
    have hheld : Books log (ps.flatMap Part.dropped ++ ps.flatMap Part.taken ++
        H.flatMap Part.held) := by
      refine h.books.perm ?_
      rw [List.flatMap_append]
      exact List.perm_append_comm.trans
        ((List.flatMap_append_perm ps Part.dropped Part.taken).append_left _)
    have hrefs : ((replay log).refs n).Perm ((ps.flatMap Part.dropped).flatMap
        (replay log).refsOf ++ ps.flatMap Part.taken) := by
      rw [Arena.refs, Arena.slots, hfits.slots hps, List.flatMap_assoc, List.filterMap_flatMap,
        List.flatMap_congr fun p hp => filterMap_slots (hps p hp)]
      exact (List.flatMap_append_perm ps _ _).symm
    have hleaf : (ps.flatMap Part.dropped).flatMap (replay log).behindOf = [] := by
      rw [List.flatMap_assoc, List.flatMap_eq_nil_iff]
      exact fun p hp => behindOf_dropped (hps p hp)
    refine (hheld.alloc h.mirror.kept hrefs (.of_eq hfits.behind) hleaf).perm ?_
    rw [List.flatMap_append]
    exact List.perm_append_singleton _ _

/-- A list whose items are in hand is put on its shelf. -/
theorem shelve {β : Type} {s : Shelf} {R : s.Item → β → List Part → Prop} {items : List s.Item}
    {bs : List β} {F G : List Part} (h : Match ls c log (F ++ qs ++ G))
    (heach : Each R items bs qs)
    (hR : ∀ {item b ps}, R item b ps → Fits ls log c.bench (s.slots item) [] ps) :
    Match ls c (.shelve items :: log)
      (F ++ (.list ⟨((replay log).buffer s).size, items.length⟩ items :: qs) ++ G) := by
  have hqs : ∀ q ∈ qs, q.Holds ls log c.bench := fun q hq => h.parts q (by simp [hq])
  have hsound : ∀ x ∈ items.flatMap s.slots, Sound ls log x := by
    intro x hx
    have hmem : x ∈ (items.flatMap s.slots).flatMap (replay log).deep :=
      List.mem_flatMap.mpr ⟨x, hx, List.mem_cons_self⟩
    rw [(heach.fits hR).slots hqs] at hmem
    obtain ⟨q, hq, hx⟩ := List.mem_flatMap.mp hmem
    exact (hqs q hq).sound x hx
  have hmirror : Mirror ls (.shelve items :: log) c.bench :=
    h.mirror.of_not_made hsound ((Arena.symbols_append _ items).trans h.mirror.symbols)
      (Arena.store_append _ items) fun _ => rfl
  have hlist := GivenOut.shelve log items
  refine ⟨h.rest, hmirror, fun p hp => ?_, ?_⟩
  · have hold : p ∈ F ++ qs ++ G → p.Holds ls (.shelve items :: log) c.bench :=
      fun hp => (h.parts p hp).mono [.shelve items] id
    simp only [List.append_assoc, List.cons_append, List.mem_append, List.mem_cons] at hp hold
    rcases hp with hp | rfl | hp
    · exact hold (.inl hp)
    · exact hlist
    · exact hold (.inr hp)
  · have hbooks := h.books.of_not_made h.mirror.kept (.shelve items) rfl
    simpa [Part.held, Part.dropped, Part.taken] using hbooks

/-- A name is taken, and its symbol noted. -/
theorem name {text : String} (h : Match ls c log H) (hc : c.head.token = .name text) :
    Match ls { c.advance with bench := c.bench.addName text } (.intern text :: log)
      (H ++ [.ident ⟨((replay log).symbols.intern text).1, c.head.span⟩ ⟨text, c.head.span⟩]) := by
  have hlexeme : Written ls (.name text) c.head.span := by
    cases hrest : c.rest with
    | nil => simp [Cursor.head, hrest] at hc
    | cons l rest =>
        have hhead : c.head = l := by simp [Cursor.head, hrest]
        exact ⟨l, h.rest.subset (by simp [hrest]), hhead ▸ hc, hhead ▸ rfl⟩
  have hnote : (replay (.intern text :: log)).symbols = ((replay log).symbols.intern text).2 := rfl
  have hmirror : Mirror ls (.intern text :: log) (c.bench.addName text) := by
    refine h.mirror.of_not_made (by simp [Event.slots]) ?_ (Arena.store_note _ text) ?_
    · change (replay (.intern text :: log)).symbols = _
      rw [hnote, h.mirror.symbols]
      rfl
    · intro k
      cases k <;> rfl
  refine ⟨(List.tail_suffix _).trans h.rest, hmirror, ?_, ?_⟩
  · refine List.forall_mem_append.mpr ⟨fun p hp => ?_, ?_⟩
    · refine (h.parts p hp).mono [.intern text] ?_
      intro k i t ht
      cases k <;> exact ht
    · refine List.forall_mem_singleton.mpr ⟨?_, rfl, hlexeme⟩
      rw [hnote]
      exact texts_intern _ text
  · have hbooks := h.books.of_not_made h.mirror.kept (.intern text) rfl
    simpa [Part.held, Part.dropped, Part.taken] using hbooks

end Match

end GoGloss.Flat
