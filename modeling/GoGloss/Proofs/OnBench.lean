import GoGloss.Proofs.Arena.Reading
import GoGloss.Proofs.Precedence

/-!
# Every node of a tree lies on the bench

A node is made from nodes that were made before it, and all of them are kept on the
workbench. So what holds of every expression on the bench when a source is accepted
holds of every expression in its tree. That the parts of a tree lie on the bench is
known from the arena that mirrors it: a node refers to its parts by their numbers
there.
-/

namespace GoGloss

/--
The tree under a node lies on the bench, as far as its first nodes go. Lines of
declarations have no place of their own there, but what is directly under them does.
-/
def Workbench.Holds (w : Workbench) : Node → Prop
  | .expr x => x ∈ w.exprs
  | .field f => f ∈ w.fields
  | .stmt s => s ∈ w.stmts
  | .decl d => d ∈ w.decls
  | .spec s => ∀ x, (∃ role, (role, .expr x) ∈ Node.specChildren s) → x ∈ w.exprs

namespace Flat

open Node

variable {ls : List Lexeme} {log : List Event} {w : Workbench} {ps : List Part}

/-- What a part in hand stands for lies on the bench. -/
theorem StandsFor.mem {k : Kind} {i : NodeId k} {t : k.Tree} (h : StandsFor log w i t) :
    t ∈ trees w k :=
  Array.mem_of_getElem? h.2

theorem One.mem {k : Kind} {i : NodeId k} {t : k.Tree} (h : One i t ps)
    (hps : ∀ p ∈ ps, p.Holds ls log w) : t ∈ trees w k := by
  subst h
  exact StandsFor.mem (i := i) (by simpa [Part.Holds] using hps)

theorem Headed.mem {i : ExprId} {x : Expr} (h : Headed i x ps)
    (hps : ∀ p ∈ ps, p.Holds ls log w) : x ∈ w.exprs := by
  obtain ⟨s, rfl⟩ := h
  have hheader : Part.Holds ls log w (.header s i x) := hps _ List.mem_cons_self
  exact hheader.2.mem

section Relations

variable {α β : Type} {R : α → β → List Part → Prop} {P : β → Prop}

theorem Maybe.all {o : Option α} {t : Option β} (h : Maybe R o t ps)
    (hps : ∀ p ∈ ps, p.Holds ls log w)
    (hR : ∀ {a b ps}, R a b ps → (∀ p ∈ ps, p.Holds ls log w) → P b) : ∀ b ∈ t, P b := by
  cases h with
  | none => simp
  | some h => simpa using hR h hps

theorem Each.all {as : List α} {bs : List β} (h : Each R as bs ps)
    (hps : ∀ p ∈ ps, p.Holds ls log w)
    (hR : ∀ {a b ps}, R a b ps → (∀ p ∈ ps, p.Holds ls log w) → P b) : ∀ b ∈ bs, P b := by
  induction h with
  | nil => simp
  | cons h _ ih =>
      obtain ⟨hfirst, hrest⟩ := List.forall_mem_append.mp hps
      exact List.forall_mem_cons.mpr ⟨hR h hfirst, ih hrest⟩

theorem Listed.all {s : Shelf} {R : s.Item → β → List Part → Prop} {r : ListRef s}
    {bs : List β} (h : Listed R r bs ps) (hps : ∀ p ∈ ps, p.Holds ls log w)
    (hR : ∀ {a b ps}, R a b ps → (∀ p ∈ ps, p.Holds ls log w) → P b) : ∀ b ∈ bs, P b := by
  obtain ⟨items, qs, heach, rfl⟩ := h
  exact heach.all (List.forall_mem_cons.mp hps).2 hR

end Relations

theorem BlockOf.held {b : BlockNode} {body : Block} (h : BlockOf b body ps)
    (hps : ∀ p ∈ ps, p.Holds ls log w) : ∀ s ∈ body.stmts, s ∈ w.stmts := by
  obtain ⟨h⟩ := h
  exact h.all hps One.mem

/-- The node of a part in hand lies on the bench. -/
theorem mem_of_holds {k : Kind} {i : NodeId k} {t : k.Tree}
    (h : Part.Holds ls log w (.node i t)) : t ∈ trees w k :=
  StandsFor.mem h

attribute [local simp] Workbench.Holds trees

theorem ExprOf.held {n : ExprNode} {x : Expr} (h : ExprOf n x ps)
    (hps : ∀ p ∈ ps, p.Holds ls log w) : All (fun _ => w.Holds) (exprChildren x) := by
  cases h with
  | ident | literal => simp [exprChildren]
  | funcLit hb =>
      obtain ⟨ht, hbody⟩ := List.forall_mem_append.mp hps
      simpa [exprChildren] using ⟨mem_of_holds (ht _ (.head _)), hb.held hbody⟩
  | composite ht hxs =>
      obtain ⟨htype, helements⟩ := List.forall_mem_append.mp hps
      simpa [exprChildren] using ⟨ht.all htype One.mem, hxs.all helements One.mem⟩
  | paren | star | unary | chanType | selector =>
      simpa [exprChildren] using mem_of_holds (hps _ (.head _))
  | index | binary | keyValue | mapType =>
      simpa [exprChildren] using
        ⟨mem_of_holds (hps _ (.head _)), mem_of_holds (hps _ (.tail _ (.head _)))⟩
  | indexList hxs | call hxs =>
      obtain ⟨hx, hitems⟩ := List.forall_mem_append.mp hps
      simpa [exprChildren] using ⟨mem_of_holds (hx _ (.head _)), hxs.all hitems One.mem⟩
  | slice hlo hhi hmax =>
      simp only [List.forall_mem_append] at hps
      obtain ⟨⟨⟨hx, hlow⟩, hhigh⟩, hmost⟩ := hps
      simpa [exprChildren] using ⟨mem_of_holds (hx _ (.head _)), hlo.all hlow One.mem,
        hhi.all hhigh One.mem, hmax.all hmost One.mem⟩
  | typeAssert ht =>
      obtain ⟨hx, htype⟩ := List.forall_mem_append.mp hps
      simpa [exprChildren] using ⟨mem_of_holds (hx _ (.head _)), ht.all htype One.mem⟩
  | arrayType hlength =>
      obtain ⟨hcount, helem⟩ := List.forall_mem_append.mp hps
      simpa [exprChildren] using ⟨hlength.all hcount One.mem, mem_of_holds (helem _ (.head _))⟩
  | structType hfs | interfaceType hfs =>
      simpa [exprChildren] using hfs.all hps One.mem
  | funcType hparams hresults =>
      obtain ⟨htaken, hgiven⟩ := List.forall_mem_append.mp hps
      simpa [exprChildren] using ⟨hparams.all htaken One.mem, hresults.all hgiven One.mem⟩
  | ellipsis ht => simpa [exprChildren] using ht.all hps One.mem

theorem FieldOf.held {n : FieldNode} {f : Field} (h : FieldOf n f ps)
    (hps : ∀ p ∈ ps, p.Holds ls log w) : f.type ∈ w.exprs := by
  cases h with
  | plain => exact mem_of_holds ((List.forall_mem_append.mp hps).2 _ (.head _))
  | tagged =>
      simp only [List.forall_mem_append] at hps
      exact mem_of_holds (hps.1.2 _ (.head _))

theorem StmtOf.held {n : StmtNode} {s : Stmt} (h : StmtOf n s ps)
    (hps : ∀ p ∈ ps, p.Holds ls log w) : All (fun _ => w.Holds) (stmtChildren s) := by
  cases h with
  | empty | jump => simp [stmtChildren]
  | expr | decl | step | go | defer =>
      simpa [stmtChildren] using mem_of_holds (hps _ (.head _))
  | send =>
      simpa [stmtChildren] using
        ⟨mem_of_holds (hps _ (.head _)), mem_of_holds (hps _ (.tail _ (.head _)))⟩
  | assign hlhs hrhs =>
      obtain ⟨hleft, hright⟩ := List.forall_mem_append.mp hps
      simpa [stmtChildren] using ⟨hlhs.all hleft One.mem, hrhs.all hright One.mem⟩
  | labeled => simpa [stmtChildren] using mem_of_holds (hps _ (.tail _ (.head _)))
  | ret hxs => simpa [stmtChildren] using hxs.all hps One.mem
  | block hb | select hb => simpa [stmtChildren] using hb.held hps
  | ifElse hinit hcond hb hother =>
      simp only [List.forall_mem_append] at hps
      obtain ⟨⟨⟨hfirst, hheader⟩, hbody⟩, helse⟩ := hps
      simpa [stmtChildren] using ⟨hinit.all hfirst One.mem, hcond.mem hheader, hb.held hbody,
        hother.all helse One.mem⟩
  | loop hinit hcond hpost hb =>
      simp only [List.forall_mem_append] at hps
      obtain ⟨⟨⟨hfirst, hheader⟩, hafter⟩, hbody⟩ := hps
      simpa [stmtChildren] using ⟨hinit.all hfirst One.mem, hcond.all hheader Headed.mem,
        hpost.all hafter One.mem, hb.held hbody⟩
  | range hkey hvalue hb =>
      simp only [List.forall_mem_append] at hps
      obtain ⟨⟨⟨hfirst, hsecond⟩, hx⟩, hbody⟩ := hps
      simpa [stmtChildren] using ⟨hkey.all hfirst One.mem, hvalue.all hsecond One.mem,
        mem_of_holds (hx _ (.head _)), hb.held hbody⟩
  | switch hinit htag hb =>
      simp only [List.forall_mem_append] at hps
      obtain ⟨⟨hfirst, hheader⟩, hbody⟩ := hps
      simpa [stmtChildren] using ⟨hinit.all hfirst One.mem, htag.all hheader Headed.mem,
        hb.held hbody⟩
  | typeSwitch hinit hb =>
      simp only [List.forall_mem_append] at hps
      obtain ⟨⟨hfirst, hguard⟩, hbody⟩ := hps
      simpa [stmtChildren] using ⟨hinit.all hfirst One.mem, mem_of_holds (hguard _ (.head _)),
        hb.held hbody⟩
  | caseClause hxs hss =>
      obtain ⟨hcases, hbody⟩ := List.forall_mem_append.mp hps
      simpa [stmtChildren] using ⟨hxs.all hcases One.mem, hss.all hbody One.mem⟩
  | commClause hcomm hss =>
      obtain ⟨hfirst, hbody⟩ := List.forall_mem_append.mp hps
      simpa [stmtChildren] using ⟨hcomm.all hfirst One.mem, hss.all hbody One.mem⟩

theorem SpecOf.held {n : SpecNode} {s : Spec} (h : SpecOf n s ps)
    (hps : ∀ p ∈ ps, p.Holds ls log w) : w.Holds (.spec s) := by
  suffices hall : All (fun _ => w.Holds) (specChildren s) from
    fun x ⟨role, hx⟩ => hall (role, .expr x) hx
  cases h with
  | importing => simp [specChildren]
  | value _ ht hxs =>
      simp only [List.forall_mem_append] at hps
      simpa [specChildren] using ⟨ht.all hps.1.2 One.mem, hxs.all hps.2 One.mem⟩
  | type => simpa [specChildren] using mem_of_holds (hps _ (.tail _ (.head _)))

theorem DeclOf.held {n : DeclNode} {d : Decl} (h : DeclOf n d ps)
    (hps : ∀ p ∈ ps, p.Holds ls log w) : All (fun _ => w.Holds) (declChildren d) := by
  cases h with
  | group hspecs =>
      have hall := hspecs.all hps SpecOf.held
      simpa only [declChildren, all_specs] using hall
  | @func _ fields ps _ body qs pos n i span name x hreceiver hb =>
      simp only [List.forall_mem_append] at hps
      obtain ⟨⟨⟨hfields, -⟩, htype⟩, hbody⟩ := hps
      have hreceiver := hreceiver.all hfields fun hfs hqs => hfs.all hqs One.mem
      have hstmts := hb.all hbody BlockOf.held
      refine all_append.mpr ⟨?_, all_cons.mpr ⟨mem_of_holds (htype _ (.head _)), ?_⟩⟩
      · cases fields with
        | none => exact all_nil
        | some fs => exact all_fields.mpr (hreceiver fs rfl)
      · cases body with
        | none => exact all_nil
        | some b => exact all_body.mpr (hstmts b rfl)

/-- On a bench that an arena mirrors, the parts of a tree lie on the bench with it. -/
theorem Mirror.held_children (h : Mirror ls log w) {n : Node} (hn : w.Holds n) :
    All (fun _ => w.Holds) n.children := by
  have hparts : ∀ {k : Kind} {t : k.Tree}, t ∈ trees w k →
      ∃ n ps, k.Of n t ps ∧ ∀ p ∈ ps, p.Holds ls log w := by
    intro k t ht
    obtain ⟨i, hi⟩ := Array.mem_iff_getElem?.mp ht
    obtain ⟨n, ps, -, hof, hps⟩ := h.node (i := ⟨i⟩) hi
    exact ⟨n, ps, hof, hps⟩
  cases n with
  | expr x =>
      obtain ⟨n, ps, hof, hps⟩ := hparts (k := .expr) hn
      exact ExprOf.held hof hps
  | field f =>
      obtain ⟨n, ps, hof, hps⟩ := hparts (k := .field) hn
      exact all_cons.mpr ⟨FieldOf.held hof hps, all_nil⟩
  | stmt s =>
      obtain ⟨n, ps, hof, hps⟩ := hparts (k := .stmt) hn
      exact StmtOf.held hof hps
  | decl d =>
      obtain ⟨n, ps, hof, hps⟩ := hparts (k := .decl) hn
      exact DeclOf.held hof hps
  | spec s =>
      -- what is under a line of a declaration is an expression
      rintro ⟨role, m⟩ hm
      cases s with
      | importing => simp [children, specChildren] at hm
      | value _ type values =>
          obtain ⟨x, rfl⟩ : ∃ x, m = .expr x := by
            rcases List.mem_append.mp hm with hm | hm <;>
              exact (List.mem_map.mp hm).imp fun x hx => (congrArg Prod.snd hx.2).symm
          exact hn x ⟨role, hm⟩
      | type _ _ type =>
          obtain ⟨x, rfl⟩ : ∃ x, m = .expr x := ⟨type, congrArg Prod.snd (List.mem_singleton.mp hm)⟩
          exact hn x ⟨role, hm⟩

/-- The whole tree under a node on the bench lies there. -/
theorem Mirror.held_nodes (h : Mirror ls log w) {n : Node} (hn : w.Holds n) :
    ∀ m ∈ n.nodes, w.Holds m := by
  refine forall_mem_nodes.mpr ⟨hn, fun p hp => ?_⟩
  have := sizeOf_lt_of_mem_children hp
  exact h.held_nodes (h.held_children hn p hp)
termination_by sizeOf n

/-- A tree of any kind as a node. -/
def Kind.toNode : (k : Kind) → k.Tree → GoGloss.Node
  | .expr => .expr
  | .stmt => .stmt
  | .decl => .decl
  | .field => .field

/-- All nodes of an accepted tree lie on the bench. -/
theorem held_of_read {k : Kind} {p : Builder (NodeId k)} {q : Grammar.Parser k.Tree}
    (htwin : Twin [] p q One) {src : String} {g : GoGloss.Fragment k.Tree}
    (hg : GoGloss.Fragment.read q src = .ok g) :
    ∀ m ∈ (k.toNode g.root).nodes, g.bench.Holds m := by
  rcases read_together htwin src with ⟨e, -, he⟩ | ⟨f, g', log, -, hg', htogether⟩
  · cases hg.symm.trans he
  · obtain rfl : g = g' := Except.ok.inj (hg.symm.trans hg')
    refine htogether.mirror.held_nodes ?_
    have hroot := htogether.root.mem
    cases k <;> exact hroot

end Flat

end GoGloss
