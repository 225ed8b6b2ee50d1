import GoGloss.Proofs.Arena.History
import Mathlib.Data.List.Perm.Basic

/-!
# The books of an arena

While an arena is built, some of its nodes are held by the reader, which is going to
put them under other nodes. `Books log held` accounts for all nodes of a history.
Each is in use or was left behind. A node in use is held, or another node in use
refers to it, and there is just one such holder or parent. What was left behind are
the labels and headers that some nodes in use are made from: one expression for each
label, one statement for each condition and tag.

The one step that matters is `Books.alloc`: a new node takes what it refers to out of
the reader's hands, together with what it leaves behind, and is held instead.
-/

namespace GoGloss.Flat

/-- The kinds of the nodes that a statement leaves behind: what was read as an expression
and is its label, what was read as a statement and is its condition or tag. -/
def StmtNode.behind : StmtNode → List Kind
  | .labeled .. => [.expr]
  | .ifElse .. => [.stmt]
  | .loop _ header _ _ | .switch _ header _ => header.toList.map fun _ => .stmt
  | _ => []

/-- The kinds of the nodes that a node leaves behind. -/
def Kind.behind : (k : Kind) → k.Node → List Kind
  | .stmt, s => s.behind
  | _, _ => []

/-- The kinds of the nodes that the node of a number leaves behind. -/
def Arena.behindOf (a : Arena) (i : AnyId) : List Kind :=
  (a.node? (k := i.kind) ⟨i.raw⟩).elim [] i.kind.behind

/-- Accounts of the nodes in use and the nodes left behind. -/
structure Ledger (log : List Event) (held live left : List AnyId) : Prop where
  /-- Every node is in use or was left behind. -/
  all : (live ++ left).Perm (made log)
  /-- A node in use is held or has one parent. -/
  used : (held ++ live.flatMap (replay log).refsOf).Perm live
  /-- What was left behind belongs to nodes in use. -/
  paid : (left.map AnyId.kind).Perm (live.flatMap (replay log).behindOf)

/-- All nodes of a history are accounted for, with some of them held by the reader. -/
def Books (log : List Event) (held : List AnyId) : Prop :=
  ∃ live left, Ledger log held live left

theorem books_nil : Books [] [] :=
  ⟨[], [], .nil, .nil, .nil⟩

theorem Books.perm {log : List Event} {held held' : List AnyId} (h : Books log held)
    (hperm : held'.Perm held) : Books log held' := by
  obtain ⟨live, left, hledger⟩ := h
  exact ⟨live, left, hledger.all, (hperm.append_right _).trans hledger.used, hledger.paid⟩

variable {ls : List Lexeme} {log : List Event} {held : List AnyId}

/-- What a node leaves behind never changes. -/
theorem behindOf_mono {i : AnyId} (hi : i ∈ made log) (more : List Event) :
    (replay (more ++ log)).behindOf i = (replay log).behindOf i := by
  have hsome : ((replay log).node? (⟨i.raw⟩ : NodeId i.kind)).isSome :=
    Arena.node?_isSome.mpr (mem_made.mp hi)
  obtain ⟨n, hn⟩ := Option.isSome_iff_exists.mp hsome
  rw [Arena.behindOf, Arena.behindOf, hn, (grows_replay more log).node hn]

namespace Ledger

variable {live left : List AnyId}

theorem mem_made_of_live (h : Ledger log held live left) {i : AnyId} (hi : i ∈ live) :
    i ∈ made log :=
  h.all.subset (List.mem_append_left _ hi)

/-- The accounts read the same after one more event. -/
theorem flatMap_later (hkept : Kept ls log) (h : Ledger log held live left) (e : Event)
    {is : List AnyId} (his : is ⊆ live) :
    is.flatMap (replay (e :: log)).refsOf = is.flatMap (replay log).refsOf ∧
      is.flatMap (replay (e :: log)).behindOf = is.flatMap (replay log).behindOf := by
  have hmade : ∀ i ∈ is, i ∈ made log := fun i hi => h.mem_made_of_live (his hi)
  constructor
  · exact List.flatMap_congr fun i hi => hkept.refsOf_mono (hmade i hi) [e]
  · exact List.flatMap_congr fun i hi => behindOf_mono (hmade i hi) [e]

end Ledger

/-- An event that makes no node leaves the books as they are. -/
theorem Books.of_not_made (hkept : Kept ls log) (h : Books log held) (e : Event)
    (he : e.made? (replay log) = none) : Books (e :: log) held := by
  obtain ⟨live, left, hledger⟩ := h
  obtain ⟨hrefs, hbehind⟩ := hledger.flatMap_later hkept e (List.Subset.refl live)
  refine ⟨live, left, ?_, hrefs ▸ hledger.used, hbehind ▸ hledger.paid⟩
  rw [made, he]
  exact hledger.all

section Alloc

variable {k : Kind} {node : k.Node} {span : Span}

theorem refsOf_alloc (a : Arena) :
    (a.alloc node span).refsOf ⟨k, a.size k⟩ = a.refs node := by
  have hunder : (a.alloc node span).under = a.under := by
    funext x
    cases x <;> simp [Arena.under]
  have hspread : (a.alloc node span).spread = a.spread := by
    funext x
    rw [Arena.spread, Arena.spread, hunder]
  have hdeep : (a.alloc node span).deep = a.deep := by
    funext x
    rw [Arena.deep, Arena.deep, hunder, hspread]
  rw [Arena.refsOf, Arena.node?_alloc_new]
  change (a.alloc node span).refs node = a.refs node
  rw [Arena.refs, Arena.refs, Arena.slots, Arena.slots, hdeep]

theorem behindOf_alloc (a : Arena) :
    (a.alloc node span).behindOf ⟨k, a.size k⟩ = k.behind node := by
  rw [Arena.behindOf, Arena.node?_alloc_new]
  rfl

/--
A new node takes over what it refers to. Of the nodes `dropped` with that, the new
node refers to the children, and they stay behind.
-/
theorem Books.alloc {dropped taken : List AnyId} (hkept : Kept ls log)
    (h : Books log (dropped ++ taken ++ held))
    (hrefs : ((replay log).refs node).Perm (dropped.flatMap (replay log).refsOf ++ taken))
    (hbehind : (dropped.map AnyId.kind).Perm (k.behind node))
    (hleaf : dropped.flatMap (replay log).behindOf = []) :
    Books (.alloc node span :: log) (⟨k, (replay log).size k⟩ :: held) := by
  obtain ⟨live, left, hledger⟩ := h
  let a := replay log
  let new : AnyId := ⟨k, a.size k⟩
  -- What stays in use is all that was but the nodes dropped.
  let rest := taken ++ held ++ live.flatMap a.refsOf
  have hlive : live.Perm (dropped ++ rest) := by
    simpa [rest] using hledger.used.symm
  have hsub : rest ⊆ live := fun i hi => hlive.symm.subset (List.mem_append_right _ hi)
  obtain ⟨hrefsLater, hbehindLater⟩ := hledger.flatMap_later hkept (.alloc node span) hsub
  have hrestRefs : (live.flatMap a.refsOf).Perm
      (dropped.flatMap a.refsOf ++ rest.flatMap a.refsOf) := by
    simpa using hlive.flatMap_right a.refsOf
  have hrestBehind : (live.flatMap a.behindOf).Perm (rest.flatMap a.behindOf) := by
    have hperm := hlive.flatMap_right a.behindOf
    rwa [List.flatMap_append, hleaf, List.nil_append] at hperm
  refine ⟨new :: rest, dropped ++ left, ?_, ?_, ?_⟩
  · change (new :: (rest ++ (dropped ++ left))).Perm (new :: made log)
    refine List.Perm.cons new (List.Perm.trans ?_ hledger.all)
    rw [List.perm_iff_count] at hlive ⊢
    intro i
    have hi := hlive i
    simp only [List.count_append] at hi ⊢
    omega
  · have hnew : (replay (.alloc node span :: log)).refsOf new = a.refs node := refsOf_alloc a
    rw [List.flatMap_cons, hrefsLater, hnew]
    rw [List.perm_iff_count] at hrefs hrestRefs ⊢
    intro i
    have hi := hrefs i
    have hi' := hrestRefs i
    simp only [new, rest, a, List.cons_append, List.count_cons, List.count_append] at hi hi' ⊢
    omega
  · have hnew : (replay (.alloc node span :: log)).behindOf new = k.behind node :=
      behindOf_alloc a
    rw [List.map_append, List.flatMap_cons, hbehindLater, hnew]
    exact hbehind.append (hledger.paid.trans hrestBehind)

end Alloc

end GoGloss.Flat
