import GoGloss.Flat.Types
import GoGloss.Proofs.Arena.Growth
import Mathlib.Data.List.Forall2

/-!
# The fields of a parameter list

The entries of a parameter list become fields when all of them are read. If no entry has
both a name and a type, each is a field without names. If one has, lone names belong to
the next type, and the list is in order if every entry has a name and the last one a type.

`NamedOutcome` says what comes of a named list, for each of the three ways it may end. The
entries of a field stand in a row, so a list that is in order is cut into groups, one for
each field.
-/

namespace GoGloss.Flat

open Grammar

variable {α β γ : Type}

/-! ## Entries -/

namespace ParamDecl

/-- The name of an entry. -/
def name? : ParamDecl → Option Ident
  | .bare n _ => some n
  | .typed n _ _ => n

/-- The type of an entry. -/
def type? : ParamDecl → Option ExprId
  | .bare .. => none
  | .typed _ t _ => some t

/-- The bytes of an entry. -/
def span : ParamDecl → Span
  | .bare _ span => span
  | .typed _ _ span => span

/-- Each name with the type of the first entry, from its own on, that has one. -/
def typings : List ParamDecl → List (Option Ident × Option ExprId)
  | [] => []
  | e :: es => (e.name?, (e :: es).findSome? type?) :: typings es

/--
What an entry of a list without names stands for: its type, or a new node for its lone name,
made on the way from one arena to another.
-/
def Means (a b : Arena) (t : ExprId) : ParamDecl → Prop
  | .bare n _ => a.size .expr ≤ t.raw ∧ b.node? t = some (.ident n) ∧ b.span t = n.pos
  | .typed _ type _ => t = type

end ParamDecl

open ParamDecl

/-! ## Fields -/

/-- A field of an arena, with its names from the shelf and its span. -/
structure FieldView where
  names : List Ident
  type : ExprId
  tag : Option Lit
  span : Span

namespace Arena

/-- The field of a number, if it was given out and its names lie on their shelf. -/
def field? (a : Arena) (i : FieldId) : Option FieldView := do
  let f ← a.node? i
  let names ← a.items? f.names
  return ⟨names, f.type, f.tag, a.span i⟩

/-- How many entries a field declares; one without names counts once. -/
def entryCount (a : Arena) (i : FieldId) : Nat :=
  (a.node? i).elim 0 fun f : FieldNode => max f.names.len 1

/-- How many entries the fields of a list declare. -/
def numFields (a : Arena) (r : ListRef .fields) : Nat :=
  ((a.items? r).getD []).foldr (fun i n => a.entryCount i + n) 0

/-- Every node has its span beside it. -/
def Aligned (a : Arena) : Prop :=
  ∀ k, (a.store k).spans.size = (a.store k).nodes.size

/-- A later state of an arena in which the nodes that were there have the spans they had. -/
structure Keeps (a b : Arena) : Prop where
  grows : a.Grows b
  span : ∀ {k : Kind} {i : NodeId k}, i.raw < a.size k → b.span i = a.span i
  aligned : b.Aligned

variable {a b c : Arena}

theorem Keeps.refl (h : a.Aligned) : a.Keeps a :=
  ⟨.refl, fun _ => rfl, h⟩

theorem Keeps.trans (h : a.Keeps b) (h' : b.Keeps c) : a.Keeps c where
  grows := h.grows.trans h'.grows
  span hi := (h'.span (Nat.lt_of_lt_of_le hi (h.grows.size _))).trans (h.span hi)
  aligned := h'.aligned

theorem Aligned.alloc (h : a.Aligned) {k : Kind} (node : k.Node) (span : Span) :
    (a.alloc node span).Aligned := by
  intro l
  by_cases hl : l = k
  · subst hl
    rw [store_alloc_same]
    simp [Store.push, h l]
  · rw [store_alloc_ne a node span hl, h l]

theorem span_alloc_new (h : a.Aligned) {k : Kind} (node : k.Node) (span : Span) :
    (a.alloc node span).span (⟨a.size k⟩ : NodeId k) = span := by
  rw [Arena.span, store_alloc_same, size, ← h k, Store.push]
  simp [Array.getD_eq_getD_getElem?]

theorem keeps_alloc (h : a.Aligned) {k : Kind} (node : k.Node) (span : Span) :
    a.Keeps (a.alloc node span) where
  grows := grows_alloc node span
  span {l i} hi := by
    by_cases hl : l = k
    · subst hl
      rw [size, ← h l] at hi
      rw [Arena.span, Arena.span, store_alloc_same, Store.push]
      simp [Array.getD_eq_getD_getElem?, Array.getElem?_push, Nat.ne_of_lt hi]
    · rw [Arena.span, Arena.span, store_alloc_ne a node span hl]
  aligned := h.alloc node span

theorem keeps_append (h : a.Aligned) {s : Shelf} (items : List s.Item) :
    a.Keeps (a.append items) where
  grows := grows_append items
  span _ := by rw [Arena.span, Arena.span, store_append]
  aligned k := by rw [store_append, h k]

theorem field?_eq_some {i : FieldId} {v : FieldView} (h : a.field? i = some v) :
    ∃ f, a.node? i = some f ∧ a.items? f.names = some v.names ∧ f.type = v.type ∧
      f.tag = v.tag ∧ a.span i = v.span := by
  simp only [field?, Option.bind_eq_bind, Option.bind_eq_some_iff] at h
  obtain ⟨f, hf, names, hnames, hv⟩ := h
  cases hv
  exact ⟨f, hf, hnames, rfl, rfl, rfl⟩

/-- A field stays what it is. -/
theorem Keeps.field? (h : a.Keeps b) {i : FieldId} {v : FieldView} (hv : a.field? i = some v) :
    b.field? i = some v := by
  obtain ⟨f, hf, hnames, htype, htag, hspan⟩ := field?_eq_some hv
  have hlt := lt_of_node? hf
  simp only [Arena.field?, h.grows.node hf, h.grows.items hnames, h.span hlt, htype, htag, hspan,
    Option.bind_eq_bind, Option.bind_some]
  rfl

theorem length_of_items? {s : Shelf} {r : ListRef s} {xs : List s.Item}
    (h : a.items? r = some xs) : xs.length = r.len := by
  unfold items? at h
  split at h
  · cases h
    simp
    omega
  · cases h

end Arena

/-! ## Lists without names -/

theorem bind_ok {p : Reader γ α} {f : α → Reader γ β} {c c' : Cursor γ} {x : α}
    (h : p c = .ok x c') : (p >>= f) c = f x c' := by
  change EStateM.bind p f c = f x c'
  rw [EStateM.bind, h]

theorem bind_error {p : Reader γ α} {f : α → Reader γ β} {c c' : Cursor γ} {e : SyntaxError}
    (h : p c = .error e c') : (p >>= f) c = .error e c' := by
  change EStateM.bind p f c = .error e c'
  rw [EStateM.bind, h]

/-- A new field, whose names lie on the shelf already. -/
theorem field?_alloc {a : Arena} (h : a.Aligned) {names : ListRef .idents} {items : List Ident}
    (hitems : a.items? names = some items) (t : ExprId) (span : Span) :
    (a.alloc (k := .field) ⟨names, t, none⟩ span).field? ⟨a.size .field⟩ =
      some ⟨items, t, none, span⟩ := by
  simp only [Arena.field?, Arena.node?_alloc_new, Arena.items?_alloc, hitems,
    Arena.span_alloc_new h, Option.bind_eq_bind, Option.bind_some]
  rfl

theorem items?_empty (a : Arena) {s : Shelf} : a.items? (ListRef.empty : ListRef s) = some [] := by
  simp [Arena.items?, ListRef.empty]

theorem unnamedField_run (e : ParamDecl) {c : Cursor Arena} (hc : c.bench.Aligned) :
    ∃ i t c', unnamedField e c = .ok i c' ∧ c.bench.Keeps c'.bench ∧
      c'.bench.field? i = some ⟨[], t, none, e.span⟩ ∧ e.Means c.bench c'.bench t ∧
      i.raw = c.bench.size .field ∧ c'.bench.size .field = c.bench.size .field + 1 := by
  cases e with
  | typed name t span =>
      exact ⟨_, t, _, rfl, Arena.keeps_alloc (k := .field) hc _ _,
        field?_alloc hc (items?_empty _) t span, rfl, rfl,
        Arena.size_alloc_same (k := .field) _ _ _⟩
  | bare n span =>
      let a := c.bench.alloc (k := .expr) (.ident n) n.pos
      have ha : c.bench.Keeps a := Arena.keeps_alloc hc _ _
      have hfield : a.Keeps (a.alloc (k := .field) ⟨.empty, ⟨c.bench.size .expr⟩, none⟩ span) :=
        Arena.keeps_alloc ha.aligned _ _
      have hsize : a.size .field = c.bench.size .field := Arena.size_alloc_ne _ _ _ (by decide)
      refine ⟨_, ⟨c.bench.size .expr⟩, _, rfl, ha.trans hfield,
        field?_alloc ha.aligned (items?_empty _) _ span, ⟨Nat.le_refl _, ?_, ?_⟩, hsize, ?_⟩
      · exact hfield.grows.node (Arena.node?_alloc_new _ _ _)
      · rw [hfield.span (by rw [Arena.size_alloc_same]; exact Nat.lt_succ_self _)]
        exact Arena.span_alloc_new hc _ _
      · exact (Arena.size_alloc_same _ _ _).trans (congrArg (· + 1) hsize)

theorem ParamDecl.Means.widen {a a' b b' : Arena} {e : ParamDecl} {t : ExprId}
    (h : e.Means a' b t) (ha : a.Keeps a') (hb : b.Keeps b') : e.Means a b' t := by
  cases e with
  | typed => exact h
  | bare n span =>
      obtain ⟨hnew, hnode, hspan⟩ := h
      refine ⟨Nat.le_trans (ha.grows.size _) hnew, hb.grows.node hnode, ?_⟩
      rw [hb.span (Arena.lt_of_node? hnode), hspan]

/-- A field takes up some entries in a row: as many as it counts for, from end to end. -/
def Covers (a : Arena) (group : List ParamDecl) (i : FieldId) : Prop :=
  ∃ first last v, group.head? = some first ∧ group.getLast? = some last ∧
    a.field? i = some v ∧ group.length = max v.names.length 1 ∧
    v.span = ⟨first.span.start, last.span.stop⟩

/-- The numbers of some fields are the next ones in an arena. -/
def NumberedFrom (a : Arena) (ids : List FieldId) : Prop :=
  ids.map NodeId.raw = List.range' (a.size .field) ids.length

theorem NumberedFrom.cons {a b : Arena} {i : FieldId} {ids : List FieldId}
    (h : NumberedFrom b ids) (hi : i.raw = a.size .field)
    (hsize : b.size .field = a.size .field + 1) : NumberedFrom a (i :: ids) := by
  rw [NumberedFrom, hsize] at h
  rw [NumberedFrom, List.map_cons, List.length_cons, List.range'_succ, h, hi]

/-- Each entry of a list without names is a field of its own. -/
theorem unnamedFields_run (entries : List ParamDecl) {c : Cursor Arena} (hc : c.bench.Aligned) :
    ∃ ids c', entries.mapM unnamedField c = .ok ids c' ∧ c.bench.Keeps c'.bench ∧
      List.Forall₂ (fun e i => ∃ t, c'.bench.field? i = some ⟨[], t, none, e.span⟩ ∧
        e.Means c.bench c'.bench t) entries ids ∧ NumberedFrom c.bench ids := by
  induction entries generalizing c with
  | nil => exact ⟨[], c, rfl, .refl hc, .nil, rfl⟩
  | cons e es ih =>
      obtain ⟨i, t, c₁, hrun, hkeeps, hfield, hmeans, hi, hsize⟩ := unnamedField_run e hc
      obtain ⟨ids, c₂, hruns, hkeeps', hall, hids⟩ := ih hkeeps.aligned
      refine ⟨i :: ids, c₂, ?_, hkeeps.trans hkeeps', .cons ⟨t, ?_, ?_⟩ (hall.imp ?_),
        hids.cons hi hsize⟩
      · rw [List.mapM_cons, bind_ok hrun, bind_ok hruns]
        rfl
      · exact hkeeps'.field? hfield
      · exact hmeans.widen (.refl hc) hkeeps'
      · rintro e' i' ⟨t', hfield', hmeans'⟩
        exact ⟨t', hfield', hmeans'.widen hkeeps (.refl hkeeps'.aligned)⟩

/-! ## Named lists -/

/-- The entry of a lone name. -/
def lone (w : Ident × Span) : ParamDecl :=
  .bare w.1 w.2

/-- A field with the names of some entries in a row, of which the last one has its type. -/
def Shares (a : Arena) (group : List ParamDecl) (i : FieldId) : Prop :=
  ∃ (waiting : List (Ident × Span)) (n : Ident) (t : ExprId) (span : Span),
    group = waiting.map lone ++ [.typed (some n) t span] ∧
    a.field? i = some ⟨waiting.map (·.1) ++ [n], t, none,
      ⟨waiting.head?.elim span.start (·.2.start), span.stop⟩⟩

/--
What comes of a named list. `waiting` are the lone names before it, the last of which has
the span `last`.
-/
inductive NamedOutcome (a : Arena) (waiting : List (Ident × Span)) (last : Span)
    (entries : List ParamDecl) :
    EStateM.Result SyntaxError (Cursor Arena) (List FieldId) → Prop where
  /-- It is cut into groups. -/
  | grouped {ids : List FieldId} {c : Cursor Arena} (groups : List (List ParamDecl))
    (hkeeps : a.Keeps c.bench) (hgroups : groups.flatten = waiting.map lone ++ entries)
    (hshares : List.Forall₂ (Shares c.bench) groups ids) (hids : NumberedFrom a ids) :
    NamedOutcome a waiting last entries (.ok ids c)
  /-- An entry has no name. -/
  | nameless {c : Cursor Arena} (before : List ParamDecl) (e : ParamDecl)
    (after : List ParamDecl) (hentries : entries = before ++ e :: after)
    (hbefore : ∀ d ∈ before, d.name? ≠ none) (he : e.name? = none) :
    NamedOutcome a waiting last entries (.error ⟨.mixedParameters, e.span⟩ c)
  /-- Lone names are left at the end. -/
  | left {c : Cursor Arena} (before : List ParamDecl) (w : Ident × Span) (span : Span)
    (hnames : ∀ d ∈ entries, d.name? ≠ none)
    (hend : waiting.map lone ++ entries = before ++ [lone w])
    (hspan : span = entries.getLast?.elim last ParamDecl.span) :
    NamedOutcome a waiting last entries (.error ⟨.mixedParameters, span⟩ c)

theorem elim_getLast?_cons (e : ParamDecl) (es : List ParamDecl) (last : Span) :
    (e :: es).getLast?.elim last ParamDecl.span = es.getLast?.elim e.span ParamDecl.span := by
  rw [List.getLast?_cons]
  cases es.getLast? <;> rfl

theorem namedFields_outcome (waiting : List (Ident × Span)) (last : Span)
    (entries : List ParamDecl) {c : Cursor Arena} (hc : c.bench.Aligned) :
    NamedOutcome c.bench waiting last entries (namedFields waiting last entries c) := by
  induction entries generalizing waiting last c with
  | nil =>
      rcases List.eq_nil_or_concat waiting with rfl | ⟨ws, w, rfl⟩
      · exact .grouped [] (.refl hc) rfl .nil rfl
      · have hrun : namedFields (ws ++ [w]) last [] c = .error ⟨.mixedParameters, last⟩ c := by
          rw [namedFields, if_neg (by simp)]
          rfl
        rw [List.concat_eq_append, hrun]
        exact .left (ws.map lone) w last (by simp) (by simp) rfl
  | cons e es ih =>
      match e with
      | .bare n span =>
          have hnext := ih (waiting ++ [(n, span)]) span hc
          have hsplit : (waiting ++ [(n, span)]).map lone ++ es =
              waiting.map lone ++ .bare n span :: es := by
            simp [lone]
          have hname : (ParamDecl.bare n span).name? ≠ none := by simp [name?]
          rw [namedFields]
          generalize namedFields (waiting ++ [(n, span)]) span es c = r at hnext
          cases hnext with
          | grouped groups hkeeps hgroups hshares hids =>
              exact .grouped groups hkeeps (hgroups.trans hsplit) hshares hids
          | nameless before d after hentries hbefore hd =>
              exact .nameless (.bare n span :: before) d after (by rw [hentries]; rfl)
                (List.forall_mem_cons.mpr ⟨hname, hbefore⟩) hd
          | left before w place hnames hend hplace =>
              refine .left before w place (List.forall_mem_cons.mpr ⟨hname, hnames⟩)
                (hsplit.symm.trans hend) ?_
              rw [elim_getLast?_cons]
              exact hplace
      | .typed none t span => exact .nameless [] _ es rfl (by simp) rfl
      | .typed (some n) t span =>
          -- the names go on their shelf, and the field after them
          let a := c.bench.append (s := .idents) (waiting.map (·.1) ++ [n])
          let start := waiting.head?.elim span.start (·.2.start)
          let b := a.alloc (k := .field)
            ⟨⟨(c.bench.buffer .idents).size, (waiting.map (·.1) ++ [n]).length⟩, t, none⟩
            ⟨start, span.stop⟩
          have ha : c.bench.Keeps a := Arena.keeps_append hc _
          have hb : a.Keeps b := Arena.keeps_alloc ha.aligned _ _
          have hfield : b.field? ⟨a.size .field⟩ =
              some ⟨waiting.map (·.1) ++ [n], t, none, ⟨start, span.stop⟩⟩ :=
            field?_alloc ha.aligned (Arena.items?_append_new _ _) t _
          have hrest := ih [] span (c := { c with bench := b }) hb.aligned
          have hrun : namedFields waiting last (.typed (some n) t span :: es) c =
              ((fun ids => (⟨a.size .field⟩ :: ids : List FieldId)) <$> namedFields [] span es)
                { c with bench := b } := rfl
          have hname : (ParamDecl.typed (some n) t span).name? ≠ none := by simp [name?]
          rw [hrun, map_eq_pure_bind]
          cases hnext : namedFields [] span es { c with bench := b } with
          | ok ids c' =>
              rw [bind_ok hnext]
              rw [hnext] at hrest
              cases hrest with
              | grouped groups hkeeps hgroups hshares hids =>
                  have hnew : NumberedFrom a (⟨a.size .field⟩ :: ids) :=
                    hids.cons rfl (Arena.size_alloc_same (k := .field) _ _ _)
                  refine .grouped ((waiting.map lone ++ [.typed (some n) t span]) :: groups)
                    (ha.trans (hb.trans hkeeps)) ?_ (.cons ?_ hshares) ?_
                  · simp [hgroups]
                  · exact ⟨waiting, n, t, span, rfl, hkeeps.field? hfield⟩
                  · rwa [NumberedFrom, Arena.size_append] at hnew
          | error err c' =>
              rw [bind_error hnext]
              rw [hnext] at hrest
              cases hrest with
              | nameless before d after hentries hbefore hd =>
                  exact .nameless (.typed (some n) t span :: before) d after
                    (by rw [hentries]; rfl) (List.forall_mem_cons.mpr ⟨hname, hbefore⟩) hd
              | left before w place hnames hend hplace =>
                  refine .left (waiting.map lone ++ .typed (some n) t span :: before) w place
                    (List.forall_mem_cons.mpr ⟨hname, hnames⟩) ?_ ?_
                  · rw [List.append_assoc, List.cons_append, ← hend]
                    rfl
                  · rw [elim_getLast?_cons]
                    exact hplace

/-! ## What the groups amount to -/

theorem Shares.covers {a : Arena} {group : List ParamDecl} {i : FieldId} (h : Shares a group i) :
    Covers a group i := by
  obtain ⟨waiting, n, t, span, rfl, hfield⟩ := h
  cases waiting with
  | nil => exact ⟨_, _, _, rfl, rfl, hfield, rfl, rfl⟩
  | cons w ws => exact ⟨lone w, _, _, rfl, List.getLast?_concat, hfield, by simp, rfl⟩

/-- All names of a group are given the type at its end. -/
theorem typings_group (waiting : List (Ident × Span)) (n : Ident) (t : ExprId) (span : Span)
    (rest : List ParamDecl) :
    typings (waiting.map lone ++ .typed (some n) t span :: rest) =
      (waiting.map (·.1) ++ [n]).map (fun m => (some m, some t)) ++ typings rest := by
  have hfind : ∀ ws : List (Ident × Span),
      (ws.map lone ++ .typed (some n) t span :: rest).findSome? ParamDecl.type? = some t := by
    intro ws
    induction ws with
    | nil => rfl
    | cons w ws ih => exact ih
  induction waiting with
  | nil => rfl
  | cons w ws ih =>
      have hfind' := hfind (w :: ws)
      rw [List.map_cons, List.cons_append] at hfind' ⊢
      rw [typings, hfind', ih]
      rfl

/-- The names in the fields of a list, each with the type of its field. -/
def fieldTypings (views : List FieldView) : List (Option Ident × Option ExprId) :=
  views.flatMap fun v => v.names.map fun n => (some n, some v.type)

theorem typings_of_shares {a : Arena} {groups : List (List ParamDecl)} {ids : List FieldId}
    (h : List.Forall₂ (Shares a) groups ids) :
    ∃ views, ids.map a.field? = views.map some ∧ fieldTypings views = typings groups.flatten := by
  induction h with
  | nil => exact ⟨[], rfl, rfl⟩
  | cons hshares _ ih =>
      obtain ⟨views, hviews, htypings⟩ := ih
      obtain ⟨waiting, n, t, span, rfl, hfield⟩ := hshares
      refine ⟨_ :: views, by rw [List.map_cons, List.map_cons, hfield, hviews], ?_⟩
      rw [List.flatten_cons, List.append_assoc, List.singleton_append, typings_group, ← htypings]
      rfl

/-- In a list that was cut into groups every entry has a name. -/
theorem name?_of_shares {a : Arena} {groups : List (List ParamDecl)} {ids : List FieldId}
    (h : List.Forall₂ (Shares a) groups ids) : ∀ e ∈ groups.flatten, e.name? ≠ none := by
  induction h with
  | nil => simp
  | cons hshares _ ih =>
      obtain ⟨waiting, n, t, span, rfl, -⟩ := hshares
      rw [List.flatten_cons, List.forall_mem_append]
      refine ⟨List.forall_mem_append.mpr ⟨?_, by simp [name?]⟩, ih⟩
      exact List.forall_mem_map.mpr fun w _ => by simp [lone, name?]

/-- And the last entry has a type. -/
theorem type?_of_shares {a : Arena} {groups : List (List ParamDecl)} {ids : List FieldId}
    (h : List.Forall₂ (Shares a) groups ids) :
    ∀ e ∈ groups.flatten.getLast?, e.type? ≠ none := by
  induction h with
  | nil => simp
  | @cons group i groups ids hshares _ ih =>
      obtain ⟨waiting, n, t, span, rfl, -⟩ := hshares
      rw [List.flatten_cons, List.getLast?_append]
      cases hlast : groups.flatten.getLast? with
      | some e => simpa [hlast] using ih
      | none => simp [ParamDecl.type?]

theorem length_of_covers {a : Arena} {groups : List (List ParamDecl)} {ids : List FieldId}
    (h : List.Forall₂ (Covers a) groups ids) :
    ids.foldr (fun i n => a.entryCount i + n) 0 = groups.flatten.length := by
  induction h with
  | nil => rfl
  | cons hcovers _ ih =>
      obtain ⟨first, last, v, -, -, hfield, hlength, -⟩ := hcovers
      obtain ⟨f, hnode, hnames, -, -, -⟩ := Arena.field?_eq_some hfield
      rw [List.foldr_cons, ih, List.flatten_cons, List.length_append, hlength,
        Arena.length_of_items? hnames, Arena.entryCount, hnode]
      rfl

theorem Covers.of_unnamed {a : Arena} {e : ParamDecl} {i : FieldId} {t : ExprId}
    (h : a.field? i = some ⟨[], t, none, e.span⟩) : Covers a [e] i :=
  ⟨e, e, _, rfl, rfl, h, rfl, rfl⟩

/-- Where a named list that is out of order is at fault. -/
theorem NamedOutcome.fault {a : Arena} {last : Span} {entries : List ParamDecl}
    {err : SyntaxError} {c : Cursor Arena}
    (h : NamedOutcome a [] last entries (.error err c)) : err.fault = .mixedParameters ∧
      ((entries.find? fun d => d.name?.isNone).or entries.getLast?).map ParamDecl.span =
        some err.span := by
  cases h with
  | nameless before e after hentries hbefore he =>
      have hfind : (entries.find? fun d => d.name?.isNone) = some e := by
        rw [hentries, List.find?_append, List.find?_eq_none.mpr]
        · simp [he]
        · simpa using hbefore
      rw [hfind]
      exact ⟨rfl, rfl⟩
  | left before w span hnames hend hspan =>
      have hfind : (entries.find? fun d => d.name?.isNone) = none :=
        List.find?_eq_none.mpr (by simpa using hnames)
      obtain rfl : entries = before ++ [lone w] := hend
      rw [hfind, hspan]
      simp

/-- A named list is in order if every entry has a name and the last one a type. -/
theorem NamedOutcome.isOk_iff {a : Arena} {last : Span} {entries : List ParamDecl}
    {r : EStateM.Result SyntaxError (Cursor Arena) (List FieldId)}
    (h : NamedOutcome a [] last entries r) : (∃ ids c, r = .ok ids c) ↔
      (∀ e ∈ entries, e.name? ≠ none) ∧ ∀ e ∈ entries.getLast?, e.type? ≠ none := by
  cases h with
  | grouped groups hkeeps hgroups hshares hids =>
      obtain rfl : groups.flatten = entries := hgroups
      exact ⟨fun _ => ⟨name?_of_shares hshares, type?_of_shares hshares⟩, fun _ => ⟨_, _, rfl⟩⟩
  | nameless before e after hentries hbefore he =>
      constructor
      · rintro ⟨_, _, hr⟩
        cases hr
      · rintro ⟨hnames, -⟩
        exact absurd he (hnames e (by simp [hentries]))
  | left before w span hnames hend hspan =>
      constructor
      · rintro ⟨_, _, hr⟩
        cases hr
      · rintro ⟨-, htypes⟩
        obtain rfl : entries = before ++ [lone w] := hend
        exact absurd rfl (htypes (lone w) (by simp))

/--
What is said of all lists that are in order. The fields are new ones, and they take up the
entries in a row. They count for as many entries as there are. What was in the arena is
unchanged.
-/
structure InOrder (c c' : Cursor Arena) (entries : List ParamDecl) (ids : List FieldId) :
    Prop where
  numbers : NumberedFrom c.bench ids
  groups : ∃ groups, groups.flatten = entries ∧ List.Forall₂ (Covers c'.bench) groups ids
  count : ∀ r c'', shelveFields ids c' = .ok r c'' → c''.bench.numFields r = entries.length
  keeps : c.bench.Keeps c'.bench

theorem inOrder_of_covers {c c' : Cursor Arena} {entries : List ParamDecl} {ids : List FieldId}
    (groups : List (List ParamDecl)) (hgroups : groups.flatten = entries)
    (hcovers : List.Forall₂ (Covers c'.bench) groups ids) (hids : NumberedFrom c.bench ids)
    (hkeeps : c.bench.Keeps c'.bench) : InOrder c c' entries ids := by
  refine ⟨hids, ⟨groups, hgroups, hcovers⟩, fun r c'' hr => ?_, hkeeps⟩
  cases hr
  have hitems := Arena.items?_append_new c'.bench (s := .fields) ids
  simp only [Arena.numFields, hitems, Option.getD_some, Arena.entryCount, Arena.node?_append]
  exact (length_of_covers hcovers).trans (congrArg List.length hgroups)

/--
**Parameter grouping.** Lists in which no entry has both a name and a type give one field
without names for each entry. Other lists are in order if every entry has a name and the
last one a type; then each name is in a field of the type that comes next. What is out of
order is the first entry without a name, or the last entry if all have names.
-/
theorem paramFields_grouped {c : Cursor Arena} (hc : c.bench.Aligned)
    (entries : List ParamDecl) :
    ((∀ e ∈ entries, e.isNamed = false) → ∃ ids c', paramFields entries c = .ok ids c' ∧
      List.Forall₂ (fun e i => ∃ t, c'.bench.field? i = some ⟨[], t, none, e.span⟩ ∧
        e.Means c.bench c'.bench t) entries ids) ∧
    ((∃ e ∈ entries, e.isNamed) →
      ((∃ ids c', paramFields entries c = .ok ids c') ↔
        (∀ e ∈ entries, e.name? ≠ none) ∧ ∀ e ∈ entries.getLast?, e.type? ≠ none) ∧
      ∀ ids c', paramFields entries c = .ok ids c' → ∃ views,
        ids.map c'.bench.field? = views.map some ∧ fieldTypings views = typings entries) ∧
    (∀ e c', paramFields entries c = .error e c' → e.fault = .mixedParameters ∧
      ((entries.find? fun d => d.name?.isNone).or entries.getLast?).map ParamDecl.span =
        some e.span) ∧
    ∀ ids c', paramFields entries c = .ok ids c' → InOrder c c' entries ids := by
  by_cases hnamed : entries.any ParamDecl.isNamed = true
  · have hsome : ∃ e ∈ entries, e.isNamed := by simpa using hnamed
    have houtcome := namedFields_outcome [] ⟨0, 0⟩ entries hc
    rw [paramFields, if_pos hnamed]
    generalize namedFields [] ⟨0, 0⟩ entries c = r at houtcome
    refine ⟨fun hnone => ?_, fun _ => ⟨houtcome.isOk_iff, ?_⟩, ?_, ?_⟩
    · obtain ⟨e, he, hnamed⟩ := hsome
      simp [hnone e he] at hnamed
    · rintro ids c' rfl
      obtain ⟨groups, hkeeps, rfl, hshares⟩ := houtcome
      exact typings_of_shares hshares
    · rintro err c' rfl
      exact houtcome.fault
    · rintro ids c' rfl
      obtain ⟨groups, hkeeps, rfl, hshares, hids⟩ := houtcome
      exact inOrder_of_covers groups rfl (hshares.imp fun _ _ => Shares.covers) hids hkeeps
  · have hnone : ∀ e ∈ entries, e.isNamed = false := by simpa using hnamed
    obtain ⟨ids, c', hrun, hkeeps, hall, hids⟩ := unnamedFields_run entries hc
    rw [paramFields, if_neg hnamed, hrun]
    refine ⟨fun _ => ⟨ids, c', rfl, hall⟩, fun hsome => ?_, ?_, ?_⟩
    · obtain ⟨e, he, hnamed⟩ := hsome
      simp [hnone e he] at hnamed
    · rintro err c'' herr
      cases herr
    · intro ids' c'' hrun
      cases hrun
      have hsplit : (entries.map fun e => [e]).flatten = entries := by
        rw [← List.flatMap_def, List.flatMap_singleton']
      refine inOrder_of_covers _ hsplit ?_ hids hkeeps
      exact List.forall₂_map_left_iff.mpr
        (hall.imp fun e i ⟨t, hfield, _⟩ => Covers.of_unnamed hfield)

/-- Two names that share a type, which is in the arena already. -/
theorem paramFields_grouped_shared :
    let a := ({} : Arena).alloc (k := .expr) (.ident ⟨2, ⟨5, 8⟩⟩) ⟨5, 8⟩
    let c : Cursor Arena := { rest := [], sourceEnd := 8, bench := a }
    let entries : List ParamDecl :=
      [.bare ⟨0, ⟨0, 1⟩⟩ ⟨0, 1⟩, .typed (some ⟨1, ⟨3, 4⟩⟩) ⟨0⟩ ⟨3, 8⟩]
    a.Aligned ∧ ∃ ids c', paramFields entries c = .ok ids c' ∧ InOrder c c' entries ids := by
  intro a c entries
  have ha : a.Aligned := Arena.Aligned.alloc (fun k => by cases k <;> rfl) _ _
  obtain ⟨-, hnamed, -, horder⟩ := paramFields_grouped (c := c) ha entries
  obtain ⟨ids, c', hrun⟩ := (hnamed (by decide)).1.mpr (by decide)
  exact ⟨ha, ids, c', hrun, horder ids c' hrun⟩

end GoGloss.Flat
