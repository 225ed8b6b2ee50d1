import GoGloss.Proofs.Arena.Reading
import GoGloss.Proofs.Lossless
import Mathlib.Logic.Relation

/-!
# The integrity of an arena

An arena holds numbers, and nothing in it says what they are good for. Here it is
shown that in what the reader builds all of them are: a number is that of a node, a
list lies on its shelf with the items it was put there with, a name and a literal are
lexemes of the source.

A node is made after all nodes it refers to, so the references never lead back to
where they started.
-/

namespace GoGloss.Flat

/-- Something is stored in an arena, in a node or in an item on a shelf. -/
inductive Arena.Stores (a : Arena) : Slot → Prop where
  | node {k : Kind} {i : NodeId k} {n : k.Node} {x : Slot} (hn : a.node? i = some n)
    (hx : x ∈ k.slots n) : a.Stores x
  | item {s : Shelf} {item : s.Item} {x : Slot} (hitem : item ∈ a.buffer s)
    (hx : x ∈ s.slots item) : a.Stores x

/-- One node refers to another, by itself or in its lists. -/
def Arena.Refers (a : Arena) (i j : AnyId) : Prop :=
  j ∈ a.refsOf i

theorem Arena.le_size_of_items? {a : Arena} {s : Shelf} {r : ListRef s} {items : List s.Item}
    (h : a.items? r = some items) : r.start + r.len ≤ (a.buffer s).size := by
  unfold Arena.items? at h
  split at h
  · assumption
  · cases h

/-- In a history, one node was made before another. -/
def MadeBefore (log : List Event) (j i : AnyId) : Prop :=
  ∃ before, i :: before <:+ made log ∧ j ∈ before

/-! ## References lead to earlier nodes -/

theorem MadeBefore.idxOf_lt {log : List Event} {i j : AnyId} (h : MadeBefore log j i) :
    (made log).idxOf i < (made log).idxOf j := by
  obtain ⟨before, ⟨after, hmade⟩, hj⟩ := h
  obtain ⟨-, hnodup, hapart⟩ := List.nodup_append.mp (hmade ▸ nodup_made log)
  have hi : i ∉ after := fun h => hapart i h i List.mem_cons_self rfl
  have hj' : j ∉ after := fun h => hapart j h j (List.mem_cons_of_mem i hj) rfl
  have hne : i ≠ j := by
    rintro rfl
    exact (List.nodup_cons.mp hnodup).1 hj
  rw [← hmade, List.idxOf_append_of_notMem hi, List.idxOf_append_of_notMem hj',
    List.idxOf_cons_self, List.idxOf_cons_ne _ hne]
  omega

namespace Kept

variable {ls : List Lexeme} {log : List Event} (h : Kept ls log)
include h

theorem sound_stored {x : Slot} (hx : (replay log).Stores x) : Sound ls log x := by
  cases hx with
  | node hn hx =>
      obtain ⟨_, _, _, _, hsound⟩ := h.sound_node hn
      exact (hsound x hx).2
  | item hitem hx =>
      obtain ⟨items, before, hbefore, hmem⟩ := shelve_of_mem_buffer hitem
      exact (h.sound_event hbefore x (List.mem_flatMap.mpr ⟨_, hmem, hx⟩)).2

/-- A node refers to nodes made before it, which have smaller numbers if of its kind. -/
theorem madeBefore_of_refers {i j : AnyId} (hij : (replay log).Refers i j) :
    MadeBefore log j i ∧ (j.kind = i.kind → j.raw < i.raw) := by
  obtain ⟨k, raw⟩ := i
  cases hn : (replay log).node? (⟨raw⟩ : NodeId k) with
  | none => simp [Arena.Refers, Arena.refsOf, hn] at hij
  | some n =>
      have hj : j ∈ (replay log).refs n := by simpa [Arena.Refers, Arena.refsOf, hn] using hij
      obtain ⟨span, before, hbefore, hraw⟩ := alloc_of_node? hn
      have hmem := h.mem_made_of_mem_refs hbefore j hj
      obtain rfl : raw = (replay before).size k := hraw
      obtain ⟨after, rfl⟩ := hbefore
      refine ⟨⟨made before, made_suffix after (.alloc n span :: before), hmem⟩, ?_⟩
      rintro rfl
      exact mem_made.mp hmem

theorem idxOf_lt_of_refers {i j : AnyId} (hij : (replay log).Refers i j) :
    (made log).idxOf i < (made log).idxOf j :=
  (h.madeBefore_of_refers hij).1.idxOf_lt

/-- References never lead back. -/
theorem acyclic (i : AnyId) : ¬Relation.TransGen (replay log).Refers i i := by
  have hlater : ∀ j, Relation.TransGen (replay log).Refers i j →
      (made log).idxOf i < (made log).idxOf j := by
    intro j hij
    induction hij with
    | single hij => exact h.idxOf_lt_of_refers hij
    | tail _ hij ih => exact Nat.lt_trans ih (h.idxOf_lt_of_refers hij)
  exact fun hi => Nat.lt_irrefl _ (hlater i hi)

end Kept

/-! ## The text of names and literals -/

/-- A name or a literal is not empty, and its bytes are its text. -/
theorem Written.text_eq {src : String} {token : Token} {span : Span}
    (hsize : src.utf8ByteSize ≤ Span.maxOffset) (h : Written (tokenize src) token span)
    (hown : token.hasOwnText = true) : span.text src = token.text ∧ token.text ≠ "" := by
  obtain ⟨l, hl, rfl, rfl⟩ := h
  refine ⟨text_span_of_mem hsize hl hown, fun hempty => ?_⟩
  have hreal := isLineEnd_of_hasOwnText hown
  obtain ⟨text, rest, -, -, hspec, -⟩ := tokenize_slice hl
  have htext := (hspec hreal).own hown
  exact (hspec hreal).nonempty (by rw [← htext, hempty]; rfl)

/-! ## What is read -/

variable {k : Kind}

/--
A fragment in flat form is intact. It is told from the trees that the same source is
read as, and from a history: the arena is what the history leads to, and mirrors the
workbench. So a node has the form of the tree with its number, and its lists have the
numbers of what lies in the lists of that tree.
-/
structure Intact (src : String) (f : Fragment k) (g : GoGloss.Fragment k.Tree)
    (log : List Event) : Prop where
  history : f.arena = replay log
  mirror : Mirror (tokenize src) log g.bench
  root : f.root.raw < f.arena.size k
  /-- A number that is stored is that of a node. -/
  nodes : ∀ {l : Kind} {i : NodeId l}, f.arena.Stores (.node i) → i.raw < f.arena.size l
  /-- A list that is stored lies on its shelf, with the items it was put there with. -/
  lists : ∀ {s : Shelf} {r : ListRef s}, f.arena.Stores (.list r) →
    r.start + r.len ≤ (f.arena.buffer s).size ∧
      ∃ items, GivenOut log r items ∧ f.arena.items? r = some items
  /-- A node refers to nodes made before it. -/
  earlier : ∀ {i j : AnyId}, f.arena.Refers i j →
    MadeBefore log j i ∧ (j.kind = i.kind → j.raw < i.raw)
  acyclic : ∀ i, ¬Relation.TransGen f.arena.Refers i i
  /-- An identifier has the text it covers, which is not empty. -/
  names : ∀ {n : Ident}, f.arena.Stores (.ident n) →
    f.arena.name n = n.pos.text src ∧ f.arena.name n ≠ ""
  /-- A literal covers a lexeme of its kind, and has the text of that. -/
  literals : ∀ {lit : Lit}, f.arena.Stores (.literal lit) →
    Written (tokenize src) (.literal lit.kind (lit.raw.text src)) lit.raw ∧
      lit.raw.text src ≠ ""

theorem Together.intact {src : String} {f : Fragment k} {g : GoGloss.Fragment k.Tree}
    {log : List Event} (hsize : src.utf8ByteSize ≤ Span.maxOffset)
    (h : Together src f g log) : Intact src f g log := by
  obtain ⟨root, _⟩ := f
  obtain ⟨rfl, hmirror, hroot, -⟩ := h
  have hkept := hmirror.kept
  refine ⟨rfl, hmirror, mem_made.mp hroot.1, fun hi => ?_, fun hr => ?_,
    hkept.madeBefore_of_refers, hkept.acyclic, fun {n} hn => ?_, fun hlit => ?_⟩
  · exact mem_made.mp (hkept.sound_stored hi)
  · obtain ⟨items, hitems⟩ := hkept.sound_stored hr
    exact ⟨Arena.le_size_of_items? hitems.items?, items, hitems, hitems.items?⟩
  · obtain ⟨text, htext, hwritten⟩ := hkept.sound_stored hn
    obtain ⟨hspan, hne⟩ := hwritten.text_eq hsize rfl
    have hname : (replay log).name n = text := by
      rw [Arena.name, Symbols.resolve, Array.getD_eq_getD_getElem?, htext]
      rfl
    rw [hname, hspan]
    exact ⟨rfl, hne⟩
  · obtain ⟨text, hwritten⟩ := hkept.sound_stored hlit
    obtain ⟨hspan, hne⟩ := hwritten.text_eq hsize rfl
    rw [hspan]
    exact ⟨hwritten, hne⟩

/--
**What is read is intact.** Whichever way a source of less than 4 GiB is read into an
arena, the reader of trees accepts it too, and all that the arena stores is good: the
numbers and lists are in range, the lists have the items they were made with, the
references lead to earlier nodes and never back, and the names and literals are
those of the source. The sources refused are those that the reader of trees refuses,
and with the same failure.
-/
theorem parsed_intact (src : String) (hsize : src.utf8ByteSize ≤ Span.maxOffset) :
    (∀ f, parseExpr src = .ok f →
      ∃ g log, GoGloss.parseExpr src = .ok g ∧ Intact src f g log) ∧
    (∀ f, parseDecl src = .ok f →
      ∃ g log, GoGloss.parseDecl src = .ok g ∧ Intact src f g log) ∧
    (∀ f, parseStmt src = .ok f →
      ∃ g log, GoGloss.parseStmt src = .ok g ∧ Intact src f g log) ∧
    (∀ e, parseExpr src = .error e ↔ GoGloss.parseExpr src = .error e) ∧
    (∀ e, parseDecl src = .error e ↔ GoGloss.parseDecl src = .error e) ∧
    (∀ e, parseStmt src = .error e ↔ GoGloss.parseStmt src = .error e) := by
  have hread : ∀ {k : Kind} {p : Builder (NodeId k)} {q : Grammar.Parser k.Tree} (f : Fragment k),
      Twin [] p q One → Fragment.read p src = .ok f →
      ∃ g log, GoGloss.Fragment.read q src = .ok g ∧ Intact src f g log := by
    intro k p q f htwin hf
    obtain ⟨g, log, hg, htogether⟩ := Together.of_read htwin hf
    exact ⟨g, log, hg, htogether.intact hsize⟩
  exact ⟨fun f => hread f twin_wholeExpr, fun f => hread f twin_wholeDecl,
    fun f => hread f twin_wholeStmt, read_error_iff twin_wholeExpr src,
    read_error_iff twin_wholeDecl src, read_error_iff twin_wholeStmt src⟩

/-- A labeled loop around lists inside lists. -/
theorem parsed_intact_loop :
    ∃ f g log, parseStmt "L: for i := range f(a, g(b, 1), \"s\") { x[i], y = y, i }" = .ok f ∧
      GoGloss.parseStmt "L: for i := range f(a, g(b, 1), \"s\") { x[i], y = y, i }" = .ok g ∧
      Intact "L: for i := range f(a, g(b, 1), \"s\") { x[i], y = y, i }" f g log := by
  generalize hsrc : "L: for i := range f(a, g(b, 1), \"s\") { x[i], y = y, i }" = src
  have hok : (GoGloss.parseStmt src).toOption.isSome := by
    subst hsrc
    decide +kernel
  have hsize : src.utf8ByteSize ≤ Span.maxOffset := by
    subst hsrc
    decide
  obtain ⟨f, hf⟩ := exists_of_isSome twin_wholeStmt hok
  obtain ⟨g, log, hg, hintact⟩ := (parsed_intact src hsize).2.2.1 f hf
  exact ⟨f, g, log, hf, hg, hintact⟩

end GoGloss.Flat
