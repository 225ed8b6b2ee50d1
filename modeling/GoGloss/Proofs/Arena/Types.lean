import GoGloss.Flat.Types
import GoGloss.Proofs.Arena.Twin
import GoGloss.Proofs.Yields

/-!
# Types and signatures go together

The productions for types, walked through side by side, given that the productions
one level further in go together. Parameter lists are the one place where the two
readers do not take the same steps: for a list without names the reader of trees
makes all types first and then all fields, the reader of arenas one field after the
other. Numbers are given out by kind, so that makes no difference.
-/

namespace GoGloss.Flat

open Grammar

/-- The productions one level further in go together. -/
structure Twins (u : Inner) (v : Grammar.Inner) : Prop where
  binary : ∀ least, Twin [] (u.binary least) (v.binary least) One
  unary : Twin [] u.unary v.unary One
  type? : Twin [] u.type? v.type? (Maybe One)
  literalValue : ∀ {o t ps}, Maybe One o t ps → ∀ start,
    Twin ps (u.literalValue o start) (v.literalValue t start) One
  stmt : Twin [] u.stmt v.stmt One
  ifStmt : Twin [] u.ifStmt v.ifStmt One

/-! ## Parameter lists -/

/-- An entry of a parameter list. -/
inductive ParamOf : ParamDecl → ParamEntry → List Part → Prop where
  | bare (h : Named n m ps) : ParamOf (.bare n n.pos) (.bare m) ps
  | unnamed : ParamOf (.typed none i span) (.typed none t span) [.node i t]
  | named (h : Named n m ps) :
    ParamOf (.typed (some n) i span) (.typed (some m) t span) (ps ++ [.node i t])

theorem ParamOf.isNamed_eq {e : ParamDecl} {e' : ParamEntry} {ps : List Part}
    (h : ParamOf e e' ps) : e.isNamed = e'.isNamed := by
  cases h <;> rfl

theorem Each.any_isNamed_eq {es : List ParamDecl} {es' : List ParamEntry} {ps : List Part}
    (h : Each ParamOf es es' ps) : es.any ParamDecl.isNamed = es'.any ParamEntry.isNamed := by
  induction h with
  | nil => rfl
  | cons h _ ih => rw [List.any_cons, List.any_cons, h.isNamed_eq, ih]

/-- Where the names that wait for a type start. -/
theorem Each.start_eq {waiting : List (Ident × Span)} {names : List Name} {ps : List Part}
    (start : Nat) (h : Each Named (waiting.map Prod.fst) names ps)
    (hspans : ∀ w ∈ waiting, w.2 = w.1.pos) :
    waiting.head?.elim start (·.2.start) = names.head?.elim start (·.pos.start) := by
  cases waiting with
  | nil =>
      cases h
      rfl
  | cons w waiting =>
      cases h with
      | cons h _ => exact congrArg Span.start ((hspans w (.head _)).trans h.1)

/-- The fields of a named list are made one after the other. -/
def makeNamed (names : List Name) (last : Span) (es : List ParamEntry) : Parser (List Field) :=
  match groupNamed names last es with
  | .error span => failAt span .mixedParameters
  | .ok fields => fields.mapM makeField

/-- When a reader fails in the end, it does not matter what it made before. -/
theorem Twin.fail_early {α β : Type} {F : List Part} {p : Builder α} {f : Field} {span : Span}
    {fault : Fault} {R : α → β → List Part → Prop}
    (h : Twin F p (makeField f >>= fun _ => failAt span fault) R) :
    Twin F p (failAt span fault) R := by
  intro c ls log H hmatch
  have hp := h c ls log H hmatch
  generalize p (c.keeping (replay log)) = r at hp ⊢
  cases hp with
  | error => exact .error

theorem twin_namedFields {waiting : List (Ident × Span)} {names : List Name} {last : Span}
    {es : List ParamDecl} {es' : List ParamEntry} {ps qs : List Part}
    (hwaiting : Each Named (waiting.map Prod.fst) names ps)
    (hspans : ∀ w ∈ waiting, w.2 = w.1.pos) (h : Each ParamOf es es' qs) :
    Twin (ps ++ qs) (namedFields waiting last es) (makeNamed names last es') (Each One) := by
  induction h generalizing waiting names last ps with
  | nil =>
      cases waiting with
      | nil =>
          cases hwaiting
          exact twin_pure .nil
      | cons w waiting =>
          cases hwaiting
          exact twin_failAt
  | @cons e e' es es' ps' qs he _ ih =>
      cases he with
      | @bare n m _ hn =>
          have hnext : Twin (ps ++ ps' ++ qs) (namedFields (waiting ++ [(n, n.pos)]) n.pos es)
              (makeNamed (names ++ [m]) m.pos es') (Each One) := by
            rw [← hn.1]
            refine ih ?_ ?_
            · rw [List.map_append]
              exact hwaiting.concat hn
            · exact List.forall_mem_append.mpr ⟨hspans, by simp⟩
          exact hnext.of_eq (List.append_assoc ..).symm
      | unnamed => exact twin_failAt
      | @named n m qs' i span t hn =>
          let f : Field := ⟨⟨names.head?.elim span.start (·.pos.start), span.stop⟩,
            names ++ [m], t, none⟩
          -- The field of this entry comes first, and then those of the others.
          have hsteps : Twin (ps ++ (qs' ++ [.node i t] ++ qs))
              (namedFields waiting last (.typed (some n) i span :: es)) (do
                let f ← makeField f
                let fs ← makeNamed [] span es'
                return f :: fs) (Each One) := by
            rw [namedFields, hwaiting.start_eq _ hspans]
            refine Twin.of_eq (twin_shelve (F := []) (G := [.node i t] ++ qs)
              (hwaiting.concat hn) Named.fits fun r rs hr => ?_) (by simp)
            refine Twin.perm (G := qs ++ (rs ++ [.node i t])) ?_ ?_
            · refine (twin_makeField (f := f) (.plain hr)).made fun j g => ?_
              refine Twin.perm (G := [.node j g] ++ qs) ?_ List.perm_append_comm
              exact (@ih [] [] span [] .nil (by simp)).bind fun js gs _ hgs =>
                twin_pure (.cons rfl hgs)
            · rw [List.nil_append, ← List.append_assoc]
              exact List.perm_append_comm
          cases hrest : groupNamed [] span es' with
          | ok fields =>
              have heq : makeNamed names last (.typed (some m) t span :: es') =
                  (f :: fields).mapM makeField := by
                rw [makeNamed, groupNamed, hrest]
                rfl
              rw [heq, List.mapM_cons]
              rw [makeNamed, hrest] at hsteps
              exact hsteps
          | error span' =>
              have heq : makeNamed names last (.typed (some m) t span :: es') =
                  failAt span' .mixedParameters := by
                rw [makeNamed, groupNamed, hrest]
                rfl
              rw [makeNamed, hrest] at hsteps
              rw [heq]
              exact hsteps.fail_early

/-- The field of an entry of a list without names, with its type made just before. -/
def makeUnnamed : ParamEntry → Parser Field
  | .bare m => do
    let t ← makeExpr (.ident m)
    makeField ⟨m.pos, [], t, none⟩
  | .typed _ t span => makeField ⟨span, [], t, none⟩

/-- The cursor with some types and some fields more on the workbench. -/
def withTypes (c : Cursor) (ts : List Expr) (fs : List Field) : Cursor :=
  c.withBench { c.bench with
    exprs := c.bench.exprs ++ ts.toArray
    fields := c.bench.fields ++ fs.toArray }

theorem withTypes_nil (c : Cursor) : withTypes c [] [] = c := by
  simp [withTypes, Cursor.withBench]

theorem withTypes_addExpr (c : Cursor) (t : Expr) (ts : List Expr) (fs : List Field) :
    withTypes (c.withBench (c.bench.addExpr t)) ts fs = withTypes c (t :: ts) fs := by
  simp [withTypes, Cursor.withBench, Workbench.addExpr]

theorem withTypes_addField (c : Cursor) (f : Field) (ts : List Expr) (fs : List Field) :
    withTypes (c.withBench (c.bench.addField f)) ts fs = withTypes c ts (f :: fs) := by
  simp [withTypes, Cursor.withBench, Workbench.addField]

theorem withTypes_withTypes (c : Cursor) (ts : List Expr) (fs : List Field) :
    withTypes (withTypes c ts []) [] fs = withTypes c ts fs := by
  simp [withTypes, Cursor.withBench]

theorem forM_makeExpr (ts : List Expr) (c : Cursor) :
    (ts.forM fun t => discard (makeExpr t)) c = .ok ⟨⟩ (withTypes c ts []) := by
  induction ts generalizing c with
  | nil =>
      rw [withTypes_nil]
      rfl
  | cons t ts ih =>
      rw [← withTypes_addExpr]
      exact ih _

theorem mapM_makeField (fs : List Field) (c : Cursor) :
    fs.mapM makeField c = .ok fs (withTypes c [] fs) := by
  induction fs generalizing c with
  | nil =>
      rw [withTypes_nil]
      rfl
  | cons f fs ih =>
      rw [List.mapM_cons, ← withTypes_addField]
      change EStateM.bind (fs.mapM makeField) _ (c.withBench (c.bench.addField f)) = _
      rw [EStateM.bind, ih]
      rfl

/-- Types and fields lie apart on the workbench, so they may be made in either order. -/
theorem mapM_makeUnnamed (es : List ParamEntry) :
    es.mapM makeUnnamed = (do
      ((es.filter ParamEntry.isBare).map (·.unnamedField.type)).forM fun t => discard (makeExpr t)
      (es.map ParamEntry.unnamedField).mapM makeField) := by
  funext c
  change _ = EStateM.bind _ (fun _ => List.mapM makeField _) c
  rw [EStateM.bind, forM_makeExpr]
  change _ = List.mapM makeField _ _
  rw [mapM_makeField, withTypes_withTypes]
  induction es generalizing c with
  | nil =>
      rw [List.filter_nil, List.map_nil, List.map_nil, withTypes_nil]
      rfl
  | cons e es ih =>
      rw [List.mapM_cons]
      cases e with
      | bare m =>
          let d := c.withBench (c.bench.addExpr (.ident m))
          change EStateM.bind (es.mapM makeUnnamed) _
            (d.withBench (d.bench.addField ⟨m.pos, [], .ident m, none⟩)) = _
          rw [EStateM.bind, ih, withTypes_addField, withTypes_addExpr]
          rfl
      | typed m t span =>
          change EStateM.bind (es.mapM makeUnnamed) _ (c.withBench
            (c.bench.addField ⟨span, [], t, none⟩)) = _
          rw [EStateM.bind, ih, withTypes_addField]
          rfl

theorem Twin.mapM {α β γ δ : Type} {R : α → β → List Part → Prop}
    {S : γ → δ → List Part → Prop} {f : α → Builder γ} {g : β → Parser δ} {as : List α}
    {bs : List β} {ps : List Part} (h : Each R as bs ps)
    (hf : ∀ a ∈ as, ∀ b ps, R a b ps → Twin ps (f a) (g b) S) :
    Twin ps (as.mapM f) (bs.mapM g) (Each S) := by
  induction h with
  | nil => exact twin_pure .nil
  | @cons a b as bs ps qs h _ ih =>
      obtain ⟨ha, has⟩ := List.forall_mem_cons.mp hf
      rw [List.mapM_cons, List.mapM_cons]
      refine Twin.perm (G := qs ++ ps) ?_ List.perm_append_comm
      refine (ha b ps h).bind fun c d rs hcd => ?_
      refine Twin.perm (G := rs ++ qs) ?_ List.perm_append_comm
      exact (ih has).bind fun cs ds _ hcds => twin_pure (.cons hcd hcds)

theorem twin_unnamedField {e : ParamDecl} {e' : ParamEntry} {ps : List Part}
    (h : ParamOf e e' ps) (hunnamed : e.isNamed = false) :
    Twin ps (unnamedField e) (makeUnnamed e') One := by
  cases h with
  | @bare n m _ hn =>
      obtain ⟨hpos, rfl⟩ := hn
      rw [unnamedField, hpos]
      refine (twin_makeExpr .ident).made (F := []) fun i t => ?_
      exact Twin.empty (F := []) (twin_makeField (.plain listed_empty))
  | unnamed => exact Twin.empty (F := []) (twin_makeField (.plain listed_empty))
  | named _ => cases hunnamed

theorem twin_paramFields {es : List ParamDecl} {es' : List ParamEntry} {ps : List Part}
    (h : Each ParamOf es es' ps) : Twin ps (paramFields es) (
      match groupParams es' with
      | .error span => failAt span .mixedParameters
      | .ok fields => do
        (bareTypes es').forM fun t => discard (makeExpr t)
        fields.mapM makeField) (Each One) := by
  unfold paramFields groupParams bareTypes
  rw [h.any_isNamed_eq]
  by_cases hnamed : es'.any ParamEntry.isNamed = true
  · simp only [hnamed, if_true]
    exact @twin_namedFields [] [] _ es es' [] ps .nil (by simp) h
  · simp only [hnamed, Bool.false_eq_true, if_false]
    rw [← mapM_makeUnnamed]
    have hnone : ∀ e ∈ es, e.isNamed = false := by
      rw [← h.any_isNamed_eq] at hnamed
      simpa using hnamed
    exact Twin.mapM h fun e he e' ps hps => twin_unnamedField hps (hnone e he)

/-! ## Signatures -/

section Productions

variable {u : Inner} {v : Grammar.Inner} (h : Twins u v)
include h

theorem twin_expr : Twin [] (expr u) (Grammar.expr v) One :=
  (h.binary 1).nested

theorem twin_exprList : Twin [] (exprList u) (Grammar.exprList v) (Each One) :=
  (twin_expr h).commaList

theorem twin_operandUnder : Twin [] (operandUnder u) (Grammar.operandUnder v) One :=
  h.unary.nested

theorem twin_type? : Twin [] (type? u) (Grammar.type? v) (Maybe One) :=
  h.type?.nested

theorem twin_typeAs (wanted : Wanted) :
    Twin [] (Body.type wanted (type? u)) (Body.type wanted (Grammar.type? v)) One := by
  refine (twin_type? h).after fun o t ps ht => ?_
  cases ht with
  | none => exact twin_failExpected
  | some ht => exact twin_pure ht

theorem twin_type : Twin [] (type u) (Grammar.type v) One :=
  twin_typeAs h .type

theorem twin_stmt : Twin [] (stmt u) (Grammar.stmt v) One :=
  h.stmt.nested

theorem twin_stmtList : Twin [] (stmtList u) (Grammar.stmtList v) (Listed One) := by
  refine Twin.shelved (Twin.collect (twin_peek.same fun t => .ite (twin_pure .done) ?_)) One.fits
  exact (twin_stmt h).node fun i s => twin_expectEnd.same fun _ => twin_pure (.more rfl)

theorem twin_block : Twin [] (block u) (Grammar.block v) BlockOf := by
  refine (twin_expect _).same fun lbrace => (twin_stmtList h).after fun r ss ps hss => ?_
  exact (twin_expect _).same fun rbrace => twin_pure (.mk hss)

theorem twin_paramType : Twin [] (paramType u) (Grammar.paramType v) One := by
  refine (twin_eat _).same fun pos => ?_
  cases pos with
  | none => exact twin_type h
  | some pos =>
      refine (twin_type h).node fun i t => (twin_spanFrom _).same fun span => ?_
      exact twin_makeExpr (.ellipsis (.some rfl))

theorem twin_instantiated (start : Nat) (i : ExprId) (t : Expr) :
    Twin [.node i t] (instantiated u start i) (Grammar.instantiated v start t) One := by
  refine (twin_eats _).same fun _ => .ite ?_ (twin_pure rfl)
  refine (twin_type h).node fun j y => (twin_type h).moreUntil.after fun js ys qs hys => ?_
  refine (twin_expect _).discard.same fun _ => (twin_spanFrom _).same fun span => ?_
  cases hys with
  | nil => exact twin_makeExpr .index
  | cons hy hys =>
      have hall := Each.cons (R := One) (a := j) (b := y) rfl (.cons hy hys)
      exact twin_shelve_last (F := [.node i t]) hall One.fits fun r ps hr =>
        twin_makeExpr (.indexList hr)

theorem twin_typeName : Twin [] (typeName u) (Grammar.typeName v) One := by
  refine twin_here.same fun start => twin_ident.after ?_
  rintro n m _ ⟨hpos, rfl⟩
  rw [hpos]
  refine (twin_makeExpr .ident).made (F := []) fun i t => ?_
  refine (twin_eats _).same fun _ => .ite ?_ (twin_instantiated h start i t)
  refine twin_ident.after ?_
  rintro n m _ ⟨-, rfl⟩
  refine (twin_spanFrom _).same fun span => ?_
  exact (twin_makeExpr .selector).made (F := []) fun j y => twin_instantiated h start j y

theorem twin_paramDecl : Twin [] (paramDecl u) (Grammar.paramEntry v) ParamOf := by
  refine twin_here.same fun start => twin_peek.same fun t => ?_
  split
  · refine twin_peekSecond.same fun t => ?_
    have hbare : Twin [] (do
        let n ← ident
        return ParamDecl.bare n n.pos) (do return .bare (← name)) ParamOf :=
      twin_ident.after fun n m ps hn => twin_pure (.bare hn)
    split
    · exact hbare
    · exact hbare
    · refine (twin_typeName h).node fun i t => (twin_spanFrom _).same fun span => ?_
      exact twin_pure .unnamed
    · exact (twin_ident.after fun n m ps hn => (twin_paramType h).node fun i t =>
        (twin_spanFrom _).same fun span => twin_pure (.named hn)).reads (by simp only)
  · exact ((twin_paramType h).node fun i t => (twin_spanFrom _).same fun span =>
      twin_pure .unnamed).reads (by simp only)

theorem twin_parameters : Twin [] (parameters u) (Grammar.parameters v) (Listed One) := by
  refine (twin_expect _).discard.same fun _ => ?_
  refine (twin_paramDecl h).commaListUntil.after fun es es' ps hes => ?_
  exact (twin_expect _).discard.same fun _ => (twin_paramFields hes).shelved One.fits

theorem twin_results : Twin [] (results u) (Grammar.results v) (Listed One) := by
  refine (twin_isAt _).same fun _ => .ite (twin_parameters h) ?_
  refine twin_here.same fun start => (twin_type? h).after fun o t ps ht => ?_
  cases ht with
  | none => exact Twin.empty (F := []) (G := []) (twin_pure listed_empty)
  | some ht =>
      obtain rfl := ht
      refine (twin_spanFrom _).same fun span => Twin.empty (s := .idents) (F := []) ?_
      refine (twin_makeField (.plain listed_empty)).made (F := []) fun i f => ?_
      exact twin_shelve_pure (.single rfl) One.fits

theorem twin_signature :
    Twin [] (signature u) (Grammar.signature v) (Pair (Listed One) (Listed One)) :=
  (twin_parameters h).after fun _ _ _ hparams => (twin_results h).after fun _ _ _ hresults =>
    twin_pure (.mk hparams hresults)

theorem twin_funcType : Twin [] (funcType u) (Grammar.funcType v) One := by
  refine twin_here.same fun start => (twin_expect _).same fun func => ?_
  refine (twin_signature h).after fun _ _ _ ⟨hparams, hresults⟩ => ?_
  exact (twin_spanFrom _).same fun span => twin_makeExpr (.funcType hparams hresults)

/-! ## Composite types -/

theorem twin_arrayLength : Twin [] (arrayLength u) (Grammar.arrayLength v) (Maybe One) := by
  refine twin_peek.same fun t => ?_
  split
  · exact twin_pure .none
  · refine twin_take.same fun pos => ?_
    exact (twin_makeExpr (.ellipsis .none)).made (F := []) fun i x => twin_pure (.some rfl)
  · exact ((twin_expr h).bracketed.node fun i x => twin_pure (.some rfl)).reads (by simp only)

theorem twin_arrayType : Twin [] (arrayType u) (Grammar.arrayType v) One := by
  refine twin_here.same fun start => (twin_expect _).discard.same fun _ => ?_
  refine (twin_arrayLength h).after fun o t ps hlength => (twin_expect _).discard.same fun _ => ?_
  refine (twin_type h).node fun i x => (twin_spanFrom _).same fun span => ?_
  exact twin_makeExpr (.arrayType hlength)

omit h in
theorem twin_fieldNames : Twin [] fieldNames Grammar.fieldNames (Listed Named) := by
  refine twin_peek.same fun t => ?_
  split
  · exact Twin.empty (F := []) (G := []) (twin_pure listed_empty)
  · refine twin_peekSecond.same fun t => .ite ?_ (twin_identList.shelved Named.fits)
    exact Twin.empty (F := []) (G := []) (twin_pure listed_empty)
  · exact twin_failExpected.reads (by simp only)

theorem twin_fieldDecl : Twin [] (fieldDecl u) (Grammar.fieldDecl v) One := by
  refine twin_here.same fun start => twin_fieldNames.after fun r names ps hnames => ?_
  refine (twin_type h).node fun i x => twin_textLiteral?.after ?_
  rintro tag _ _ ⟨rfl, rfl⟩
  refine (twin_spanFrom _).same fun span => ?_
  cases tag with
  | none => exact (twin_makeField (.plain hnames)).of_eq (by simp)
  | some lit => exact twin_makeField (.tagged hnames)

theorem twin_structType : Twin [] (structType u) (Grammar.structType v) One := by
  refine twin_here.same fun start => (twin_expect _).discard.same fun _ => ?_
  refine (twin_expect _).discard.same fun _ => ?_
  refine (twin_fieldDecl h).endedListUntil.after fun is fs ps hfs => ?_
  refine (twin_expect _).discard.same fun _ => ?_
  refine twin_shelve_last (F := []) hfs One.fits fun r ps hr => ?_
  exact (twin_spanFrom _).same fun span => twin_makeExpr (.structType hr)

theorem twin_typeTerm : Twin [] (typeTerm u) (Grammar.typeTerm v) One := by
  refine twin_here.same fun start => (twin_eat _).same fun opPos => ?_
  cases opPos with
  | none => exact twin_type h
  | some opPos =>
      refine (twin_type h).node fun i t => (twin_spanFrom _).same fun span => ?_
      exact twin_makeExpr .unary

theorem twin_unionRound (start : Nat) (i : ExprId) (x : Expr) :
    Twin [.node i x] (unionRound u start i) (Grammar.unionRound v start x)
      (Grown One [.node i x]) := by
  refine (twin_isAt _).same fun _ => .ite ?_ (twin_pure .none)
  refine twin_enter.same fun _ => twin_take.same fun opPos => ?_
  refine (twin_typeTerm h).node fun j y => (twin_spanFrom _).same fun span => ?_
  exact (twin_makeExpr .binary).made (F := []) fun k z => twin_pure (.some rfl)

theorem twin_interfaceMethod : Twin [] (interfaceMethod u) (Grammar.interfaceMethod v) One := by
  refine twin_here.same fun start => twin_ident.after fun n m ps hn => ?_
  refine twin_here.same fun sigStart => (twin_signature h).after fun _ _ _ ⟨hparams, hresults⟩ => ?_
  refine (twin_spanFrom _).same fun span => ?_
  refine (twin_makeExpr (.funcType hparams hresults)).made fun i t => ?_
  refine twin_shelve (F := []) (G := [.node i t]) (Each.single hn) Named.fits fun r ps hr => ?_
  exact (twin_spanFrom _).same fun span => twin_makeField (.plain hr)

theorem twin_interfaceUnion : Twin [] (interfaceUnion u) (Grammar.interfaceUnion v) One := by
  refine twin_here.same fun start => (twin_typeTerm h).node fun i x => ?_
  have hextend : Twin [.node i x] (extend (unionRound u start) i)
      (extend (Grammar.unionRound v start) x) One :=
    Twin.extend rfl fun j y ps hps => hps ▸ twin_unionRound h start j y
  refine hextend.made (F := []) fun j y => (twin_spanFrom _).same fun span => ?_
  exact Twin.empty (s := .idents) (F := []) (twin_makeField (.plain listed_empty))

theorem twin_interfaceMember : Twin [] (interfaceMember u) (Grammar.interfaceMember v) One := by
  refine twin_peek.same fun t => twin_peekSecond.same fun t' => ?_
  split
  · exact twin_interfaceMethod h
  · exact twin_interfaceUnion h

theorem twin_interfaceType : Twin [] (interfaceType u) (Grammar.interfaceType v) One := by
  refine twin_here.same fun start => (twin_expect _).discard.same fun _ => ?_
  refine (twin_expect _).discard.same fun _ => ?_
  refine (twin_interfaceMember h).endedListUntil.after fun is fs ps hfs => ?_
  refine (twin_expect _).discard.same fun _ => ?_
  refine twin_shelve_last (F := []) hfs One.fits fun r ps hr => ?_
  exact (twin_spanFrom _).same fun span => twin_makeExpr (.interfaceType hr)

theorem twin_pointerType : Twin [] (pointerType u) (Grammar.pointerType v) One :=
  twin_here.same fun _ => twin_take.same fun _ => (twin_type h).node fun _ _ =>
    (twin_spanFrom _).same fun _ => twin_makeExpr .star

theorem twin_mapType : Twin [] (mapType u) (Grammar.mapType v) One := by
  refine twin_here.same fun start => twin_take.discard.same fun _ => ?_
  refine (twin_expect _).discard.same fun _ => (twin_type h).node fun i x => ?_
  refine (twin_expect _).discard.same fun _ => (twin_type h).node fun j y => ?_
  exact (twin_spanFrom _).same fun span => twin_makeExpr .mapType

theorem twin_chanType : Twin [] (chanType u) (Grammar.chanType v) One :=
  twin_here.same fun _ => twin_take.discard.same fun _ => (twin_eats _).same fun _ =>
    (twin_type h).node fun _ _ => (twin_spanFrom _).same fun _ => twin_makeExpr .chanType

theorem twin_receiveType : Twin [] (receiveType u) (Grammar.receiveType v) One := by
  refine twin_here.same fun start => twin_take.discard.same fun _ => ?_
  refine (twin_expect _).discard.same fun _ => (twin_type h).node fun i x => ?_
  exact (twin_spanFrom _).same fun span => twin_makeExpr .chanType

theorem twin_parenType : Twin [] (parenType u) (Grammar.parenType v) One := by
  refine twin_here.same fun start => twin_take.same fun lparen => ?_
  refine (twin_type h).node fun i x => (twin_expect _).same fun rparen => ?_
  exact (twin_spanFrom _).same fun span => twin_makeExpr .paren

theorem twin_typeHere? : Twin [] (typeHere? u) (Grammar.typeHere? v) (Maybe One) := by
  refine twin_peek.same fun t => ?_
  split
  · exact (twin_typeName h).some
  · exact (twin_funcType h).some
  · exact (twin_arrayType h).some
  · exact (twin_structType h).some
  · exact (twin_interfaceType h).some
  · exact (twin_pointerType h).some
  · exact (twin_mapType h).some
  · exact (twin_chanType h).some
  · exact (twin_receiveType h).some
  · exact (twin_parenType h).some
  · exact twin_pure .none

end Productions

end GoGloss.Flat
