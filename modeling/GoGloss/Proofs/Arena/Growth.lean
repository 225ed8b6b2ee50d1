import GoGloss.Flat.Arena
import GoGloss.Workbench

/-!
# Arenas only grow

A node or a list that is in an arena stays there: allocating a node, putting a list
on its shelf and noting a symbol leave all that is there as it is. `Arena.Grows` says
so of two states of an arena. A list that lay on its shelf keeps its items, since
shelves grow at their end only.

A workbench of trees grows as an arena does, so its nodes are numbered here too.
-/

namespace GoGloss.Flat

/-- The trees that the nodes of a kind are the flat form of. -/
@[reducible]
def Kind.Tree : Kind → Type
  | .expr => Expr
  | .stmt => Stmt
  | .decl => Decl
  | .field => Field

/-- The bytes a tree was read from. -/
def Kind.span : (k : Kind) → k.Tree → Span
  | .expr, x => x.span
  | .stmt, s => s.span
  | .decl, d => d.span
  | .field, f => f.span

/-- The trees of a kind on a workbench. -/
def trees (w : Workbench) : (k : Kind) → Array k.Tree
  | .expr => w.exprs
  | .stmt => w.stmts
  | .decl => w.decls
  | .field => w.fields

/-- The workbench with one more tree. -/
def addTree (w : Workbench) : {k : Kind} → k.Tree → Workbench
  | .expr, x => w.addExpr x
  | .stmt, s => w.addStmt s
  | .decl, d => w.addDecl d
  | .field, f => w.addField f

theorem trees_addTree_same (w : Workbench) {k : Kind} (t : k.Tree) :
    trees (addTree w t) k = (trees w k).push t := by
  cases k <;> rfl

theorem trees_addTree_ne (w : Workbench) {k l : Kind} (t : k.Tree) (h : l ≠ k) :
    trees (addTree w t) l = trees w l := by
  cases k <;> cases l <;> simp_all [addTree, trees, Workbench.addExpr, Workbench.addStmt,
    Workbench.addDecl, Workbench.addField]

theorem trees_addTree_of_some {w : Workbench} {k l : Kind} (t : k.Tree) {i : Nat} {u : l.Tree}
    (h : (trees w l)[i]? = some u) : (trees (addTree w t) l)[i]? = some u := by
  by_cases hl : l = k
  · subst hl
    have hi := (Array.getElem?_eq_some_iff.mp h).choose
    rw [trees_addTree_same, Array.getElem?_push, if_neg (by omega), h]
  · rw [trees_addTree_ne w t hl, h]

@[simp]
theorem symbols_addTree (w : Workbench) {k : Kind} (t : k.Tree) :
    (addTree w t).symbols = w.symbols := by
  cases k <;> rfl

namespace Arena

variable (a : Arena)

/-! ## One more node -/

section Alloc

variable {k : Kind} (node : k.Node) (span : Span)

theorem store_alloc_same : (a.alloc node span).store k = (a.store k).push node span := by
  cases k <;> rfl

theorem store_alloc_ne {l : Kind} (h : l ≠ k) : (a.alloc node span).store l = a.store l := by
  cases k <;> cases l <;> simp_all [alloc, store]

@[simp]
theorem buffer_alloc (s : Shelf) : (a.alloc node span).buffer s = a.buffer s := by
  cases k <;> cases s <;> rfl

@[simp]
theorem symbols_alloc : (a.alloc node span).symbols = a.symbols := by
  cases k <;> rfl

@[simp]
theorem items?_alloc {s : Shelf} (r : ListRef s) :
    (a.alloc node span).items? r = a.items? r := by
  rw [items?, items?, buffer_alloc]

theorem size_alloc_same : (a.alloc node span).size k = a.size k + 1 := by
  rw [size, store_alloc_same]
  exact Array.size_push node

theorem size_alloc_ne {l : Kind} (h : l ≠ k) : (a.alloc node span).size l = a.size l := by
  rw [size, store_alloc_ne a node span h, size]

/-- The new node has the next number. -/
theorem node?_alloc_new : (a.alloc node span).node? (⟨a.size k⟩ : NodeId k) = some node := by
  rw [node?, store_alloc_same]
  exact Array.getElem?_push_size

theorem node?_alloc_of_ne {l : Kind} (i : NodeId l) (h : i.any ≠ ⟨k, a.size k⟩) :
    (a.alloc node span).node? i = a.node? i := by
  by_cases hl : l = k
  · subst hl
    have hi : i.raw ≠ a.size l := fun hraw => h (by rw [NodeId.any, hraw])
    rw [node?, node?, store_alloc_same, Store.push, Array.getElem?_push]
    exact if_neg hi
  · rw [node?, node?, store_alloc_ne a node span hl]

end Alloc

/-! ## One more list -/

section Append

variable {s : Shelf} (items : List s.Item)

@[simp]
theorem store_append (k : Kind) : (a.append items).store k = a.store k := by
  cases s <;> cases k <;> rfl

@[simp]
theorem symbols_append : (a.append items).symbols = a.symbols := by
  cases s <;> rfl

@[simp]
theorem size_append (k : Kind) : (a.append items).size k = a.size k := by
  rw [size, store_append, size]

@[simp]
theorem node?_append {k : Kind} (i : NodeId k) : (a.append items).node? i = a.node? i := by
  rw [node?, store_append, node?]

theorem buffer_append_same : (a.append items).buffer s = a.buffer s ++ items.toArray := by
  cases s <;> rfl

theorem buffer_append_ne {t : Shelf} (h : t ≠ s) : (a.append items).buffer t = a.buffer t := by
  cases s <;> cases t <;> simp_all [append, buffer]

/-- What lies at the end of a shelf. -/
theorem items?_append_new :
    (a.append items).items? (⟨(a.buffer s).size, items.length⟩ : ListRef s) = some items := by
  rw [items?, buffer_append_same, if_pos (by simp)]
  congr 1
  simp

/-- A list keeps its items when its shelf grows. -/
theorem items?_append {t : Shelf} {r : ListRef t} {xs : List t.Item} (h : a.items? r = some xs) :
    (a.append items).items? r = some xs := by
  by_cases ht : t = s
  · subst ht
    rw [items?] at h ⊢
    split at h
    · rename_i hr
      rw [buffer_append_same, if_pos (by simp; omega), ← h]
      congr 1
      simp
      omega
    · cases h
  · rw [items?, buffer_append_ne a items ht, ← items?, h]

end Append

/-! ## One more symbol -/

@[simp]
theorem store_note (text : String) (k : Kind) : (a.note text).store k = a.store k := by
  cases k <;> rfl

@[simp]
theorem buffer_note (text : String) (s : Shelf) : (a.note text).buffer s = a.buffer s := by
  cases s <;> rfl

@[simp]
theorem size_note (text : String) (k : Kind) : (a.note text).size k = a.size k := by
  rw [size, store_note, size]

@[simp]
theorem node?_note (text : String) {k : Kind} (i : NodeId k) :
    (a.note text).node? i = a.node? i := by
  rw [node?, store_note, node?]

@[simp]
theorem items?_note (text : String) {s : Shelf} (r : ListRef s) :
    (a.note text).items? r = a.items? r := by
  rw [items?, buffer_note, items?]

/-! ## Growth -/

/-- A later state of an arena: all that was there is still there. -/
structure Grows (a b : Arena) : Prop where
  size : ∀ k, a.size k ≤ b.size k
  node : ∀ {k : Kind} {i : NodeId k} {n : k.Node}, a.node? i = some n → b.node? i = some n
  items : ∀ {s : Shelf} {r : ListRef s} {xs : List s.Item},
    a.items? r = some xs → b.items? r = some xs
  text : ∀ {n : Nat} {text : String},
    a.symbols.texts[n]? = some text → b.symbols.texts[n]? = some text

variable {a} {b c : Arena}

theorem Grows.refl : Grows a a :=
  ⟨fun _ => Nat.le_refl _, id, id, id⟩

theorem Grows.trans (h : Grows a b) (h' : Grows b c) : Grows a c :=
  ⟨fun k => Nat.le_trans (h.size k) (h'.size k), h'.node ∘ h.node, h'.items ∘ h.items,
    h'.text ∘ h.text⟩

theorem node?_isSome {k : Kind} {i : NodeId k} : (a.node? i).isSome ↔ i.raw < a.size k := by
  simp [node?, size]

theorem lt_of_node? {k : Kind} {i : NodeId k} {n : k.Node} (h : a.node? i = some n) :
    i.raw < a.size k :=
  node?_isSome.mp (by rw [h]; rfl)

theorem grows_alloc {k : Kind} (node : k.Node) (span : Span) : Grows a (a.alloc node span) where
  size l := by
    by_cases hl : l = k
    · subst hl
      rw [size_alloc_same]
      omega
    · exact Nat.le_of_eq (size_alloc_ne a node span hl).symm
  node {l i n} h := by
    have hlt := lt_of_node? h
    rw [node?_alloc_of_ne, h]
    intro heq
    obtain ⟨rfl, hraw⟩ := AnyId.mk.injEq .. ▸ heq
    omega
  items h := by rw [items?_alloc, h]
  text h := by rw [symbols_alloc, h]

theorem grows_append {s : Shelf} (items : List s.Item) : Grows a (a.append items) where
  size k := Nat.le_of_eq (size_append a items k).symm
  node h := by rw [node?_append, h]
  items h := items?_append a items h
  text h := by rw [symbols_append, h]

theorem grows_note (text : String) : Grows a (a.note text) where
  size k := Nat.le_of_eq (size_note a text k).symm
  node h := by rw [node?_note, h]
  items h := by rw [items?_note, h]
  text {n s} h := by
    have hn := (Array.getElem?_eq_some_iff.mp h).choose
    rw [note, Symbols.intern]
    split
    · exact h
    · rw [Symbols.append, Array.getElem?_push, if_neg (by omega), h]

end Arena

/-- The text of a symbol that was just noted. -/
theorem texts_intern (t : Symbols) (text : String) :
    (t.intern text).2.texts[(t.intern text).1]? = some text := by
  rw [Symbols.intern]
  split
  · rename_i n hfind
    rw [Symbols.find?] at hfind
    simpa using List.find?_some hfind
  · rw [Symbols.append, Symbols.size, Array.getElem?_push_size]

end GoGloss.Flat
