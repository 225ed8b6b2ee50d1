import GoGloss.Proofs.Settles
import GoGloss.Proofs.Spans

/-!
# What is read lies where it was read

A production starts with a token ahead and ends where the last token it took stopped, and
what it makes lies in between. `Lies src b c a` says so of a value: it lies in the bytes
from the offset `b` on to where the cursor `c` stands, and its spans nest. A complaint, too,
is about bytes of the source, since it points to the token ahead or to something that was
read before.

`Nests` says of a reader that what it returns lies where it was read, and that its
complaints are about the source. It is a class, so that it is inferred along the steps of a
production. What one step has read goes into the next as a `Read` value, which brings the
knowledge about it along.
-/

-- What a production infers has as many steps as the production.
set_option synthInstance.maxSize 1000

namespace GoGloss

/-- A span that is not reversed and does not reach past `size`. -/
def Span.Inside (size : Nat) (s : Span) : Prop :=
  s.start ≤ s.stop ∧ s.stop ≤ size

/-- Offsets in order that lie in the source make a span that does. -/
theorem Span.inside_of {size start stop : Nat} (horder : start ≤ stop) (hstop : stop ≤ size) :
    (Span.of start stop).Inside size := by
  simp only [Inside, of]
  omega

/-- All offsets of a source can be recorded. -/
def Small (src : String) : Prop :=
  src.utf8ByteSize ≤ Span.maxOffset

/-- The expression that a statement consists of; it may be taken out of it. -/
def Stmt.expr? : Stmt → Option Expr
  | .expr _ x => some x
  | _ => none

open Node

namespace Grammar

variable {α β : Type} {src : String} {b n : Nat} {i : Int} {w : Workbench} {e : Bool}
  {c c' c'' : Cursor}

/-! ## Cursors in a source -/

namespace Cursor

@[simp] theorem withBench_lastStop : (c.withBench w).lastStop = c.lastStop := rfl
@[simp] theorem withDepth_lastStop : (c.withDepth n).lastStop = c.lastStop := rfl
@[simp] theorem withExprLevel_lastStop : (c.withExprLevel i).lastStop = c.lastStop := rfl
@[simp] theorem withBench_advance : (c.withBench w).advance = c.advance.withBench w := rfl
@[simp] theorem withDepth_advance : (c.withDepth n).advance = c.advance.withDepth n := rfl
@[simp] theorem withExprLevel_advance :
    (c.withExprLevel i).advance = c.advance.withExprLevel i := rfl

/-- A cursor that stands between two tokens of a source. -/
class Ready (src : String) (c : Cursor) : Prop where
  ahead : c.rest <:+ tokenize src
  sourceEnd : c.sourceEnd = src.utf8ByteSize
  lastStop : IsBoundary src c.lastStop
  lastStop_le : c.lastStop ≤ c.head.start

/-- A cursor that another one in a source may become by taking tokens. -/
class Onto (src : String) (c : outParam Cursor) (c' : Cursor) : Prop where
  ready : c'.Ready src
  lastStop_le : c.lastStop ≤ c'.lastStop
  start_le : c.head.start ≤ c'.head.start

/-- A cursor in a source, at the offset `b` or behind it. -/
class From (src : String) (b : Nat) (c : Cursor) : Prop where
  le : b ≤ c.head.start
  boundary : Small src → IsBoundary src b

/-- The last token that was taken may end a statement. -/
class Landed (src : String) (c : Cursor) : Prop where
  last : ∃ l, l :: c.rest <:+ tokenize src ∧ l.token.endsStatement ∧ l.stop = c.lastStop

namespace Ready

variable (h : c.Ready src)
include h

theorem onto_self : c.Onto src c :=
  ⟨h, Nat.le_refl _, Nat.le_refl _⟩

/-- The token ahead is a stretch of the source. -/
theorem head_bounds : IsBoundary src c.head.start ∧ IsBoundary src c.head.stop ∧
    c.head.start ≤ c.head.stop ∧ c.head.stop ≤ src.utf8ByteSize := by
  unfold head
  split
  · rw [h.sourceEnd]
    exact ⟨isBoundary_utf8ByteSize src, isBoundary_utf8ByteSize src, Nat.le_refl _, Nat.le_refl _⟩
  · rename_i l ls hrest
    have hl : l ∈ tokenize src := h.ahead.subset (by simp [hrest])
    have hbounds := isBoundary_of_mem_tokenize hl
    have hin := ((layout_tokenize src).liesIn l hl).bounds
    rw [byteSize_toList, Nat.zero_add] at hin
    exact ⟨hbounds.1, hbounds.2, hin.2⟩

/-- After a token comes the next one. -/
theorem stop_le_advance : c.head.stop ≤ c.advance.head.start := by
  have hbounds := h.head_bounds
  have hordered := (lossless_tokenize src).ordered.sublist h.ahead.sublist
  unfold advance head at *
  rcases hrest : c.rest with _ | ⟨l, _ | ⟨l', ls⟩⟩ <;> simp_all [h.sourceEnd]

theorem onto_advance : c.Onto src c.advance where
  ready := ⟨(List.tail_suffix _).trans h.ahead, h.sourceEnd, h.head_bounds.2.1, h.stop_le_advance⟩
  lastStop_le := Nat.le_trans h.lastStop_le h.head_bounds.2.2.1
  start_le := Nat.le_trans h.head_bounds.2.2.1 h.stop_le_advance

theorem head_inside : c.head.span.Inside src.utf8ByteSize :=
  Span.inside_of h.head_bounds.2.2.1 h.head_bounds.2.2.2

theorem start_le_size : c.head.start ≤ src.utf8ByteSize :=
  Nat.le_trans h.head_bounds.2.2.1 h.head_bounds.2.2.2

theorem head_span (hsmall : Small src) : c.head.span = ⟨c.head.start, c.advance.lastStop⟩ := by
  have hbounds := h.head_bounds
  unfold Small at hsmall
  simp only [Lexeme.span, Span.of, Cursor.advance, Span.mk.injEq]
  omega

theorem landed_advance {t : Token} (ht : c.head.token = t) (hends : t.endsStatement) :
    c.advance.Landed src := by
  have hahead := h.ahead
  unfold head at ht
  split at ht
  · subst ht
    cases hends
  · rename_i l ls hrest
    refine ⟨l, ?_, ht ▸ hends, by simp [advance, head, hrest]⟩
    simpa [hrest] using hahead

end Ready

/-- Cursors at the same place, which differ in the bench, the depth or the level at most. -/
structure Same (c c' : Cursor) : Prop where
  rest : c'.rest = c.rest
  sourceEnd : c'.sourceEnd = c.sourceEnd
  lastStop : c'.lastStop = c.lastStop

@[simp] theorem same_self : c.Same c := ⟨rfl, rfl, rfl⟩
theorem same_withBench : c.Same (c.withBench w) := ⟨rfl, rfl, rfl⟩
theorem same_withDepth : c.Same (c.withDepth n) := ⟨rfl, rfl, rfl⟩
theorem same_withExprLevel : c.Same (c.withExprLevel i) := ⟨rfl, rfl, rfl⟩

namespace Same

variable (h : c.Same c')
include h

theorem head : c'.head = c.head := by
  unfold Cursor.head
  rw [h.rest, h.sourceEnd]

theorem ready (hc : c.Ready src) : c'.Ready src where
  ahead := h.rest ▸ hc.ahead
  sourceEnd := h.sourceEnd ▸ hc.sourceEnd
  lastStop := h.lastStop ▸ hc.lastStop
  lastStop_le := by rw [h.lastStop, h.head]; exact hc.lastStop_le

theorem onto (hc : c.Ready src) : c.Onto src c' :=
  ⟨h.ready hc, Nat.le_of_eq h.lastStop.symm, Nat.le_of_eq (by rw [h.head])⟩

theorem onto' (hc : c'.Onto src c'') : c.Onto src c'' :=
  ⟨hc.ready, h.lastStop ▸ hc.lastStop_le, h.head ▸ hc.start_le⟩

theorem landed (hc : c.Landed src) : c'.Landed src := by
  obtain ⟨l, hl⟩ := hc
  exact ⟨l, by rwa [h.rest, h.lastStop]⟩

end Same

theorem Onto.trans (h : c.Onto src c') (h' : c'.Onto src c'') : c.Onto src c'' :=
  ⟨h'.ready, Nat.le_trans h.lastStop_le h'.lastStop_le, Nat.le_trans h.start_le h'.start_le⟩

attribute [instance] Onto.ready

instance [h : c.Ready src] : (c.withDepth n).Ready src := same_withDepth.ready h
instance [h : c.Ready src] : (c.withExprLevel i).Ready src := same_withExprLevel.ready h
instance [h : c.Onto src c'] [hc : c.From src b] : c'.From src b :=
  ⟨Nat.le_trans hc.le h.start_le, hc.boundary⟩
instance [h : c.From src b] : (c.withDepth n).From src b := ⟨h.le, h.boundary⟩
instance [h : c.From src b] : (c.withExprLevel i).From src b := ⟨h.le, h.boundary⟩
instance [h : c.Ready src] : c.From src c.head.start := ⟨Nat.le_refl _, fun _ => h.head_bounds.1⟩

end Cursor

/-! ## What lies in a source -/

/--
What it means for the values of a type to lie in a source: which places a complaint may point
to, and what lies in some bytes of the source. Some values are an expression.
-/
class Placed (α : Type) where
  inside : Nat → α → Prop
  lies : String → Span → α → Prop
  widen : ∀ {src s t a}, lies src s a → t.start ≤ s.start → s.stop ≤ t.stop → lies src t a
  expr? : α → Option Expr := fun _ => none

section Placed

variable [Placed α] [Placed β]

instance (priority := low) {α : Type} : Placed α where
  inside _ _ := True
  lies _ _ _ := True
  widen _ _ _ := trivial

/-- Values that lie where a part of them lies. -/
@[reducible] def Placed.via (f : β → α) : Placed β where
  inside size a := inside size (f a)
  lies src s a := lies src s (f a)
  widen h := widen h

instance : Placed Span where
  inside := Span.Inside
  lies src s p := p.LiesIn src s
  widen := Span.LiesIn.widen

instance : Placed Name := .via Name.pos
instance : Placed Literal := .via Literal.span
instance : Placed ImportName := .via ImportName.pos

instance : Placed Expr where
  inside size x := x.span.Inside size
  lies src s x := (Node.expr x).LiesIn src s
  widen := Node.LiesIn.widen
  expr? := some

instance : Placed Field where
  inside _ _ := True
  lies src s f := (Node.field f).LiesIn src s
  widen := Node.LiesIn.widen

instance : Placed Stmt where
  inside size s := s.span.Inside size ∧ ∀ x ∈ s.expr?, x.span.Inside size
  lies src s x := (Node.stmt x).LiesIn src s
  widen := Node.LiesIn.widen

instance : Placed Decl where
  inside _ _ := True
  lies src s d := (Node.decl d).LiesIn src s
  widen := Node.LiesIn.widen

instance : Placed Spec where
  inside _ _ := True
  lies src s x := (Node.spec x).LiesIn src s
  widen := Node.LiesIn.widen

instance : Placed (Option α) where
  inside size o := ∀ a ∈ o, Placed.inside size a
  lies src s o := ∀ a ∈ o, Placed.lies src s a
  widen h hstart hstop a ha := Placed.widen (h a ha) hstart hstop
  expr? o := o.bind Placed.expr?

instance : Placed (List α) where
  inside size as := ∀ a ∈ as, Placed.inside size a
  lies src s as := ∀ a ∈ as, Placed.lies src s a
  widen h hstart hstop a ha := Placed.widen (h a ha) hstart hstop

instance : Placed (α × β) where
  inside size p := Placed.inside size p.1 ∧ Placed.inside size p.2
  lies src s p := Placed.lies src s p.1 ∧ Placed.lies src s p.2
  widen h hstart hstop := ⟨Placed.widen h.1 hstart hstop, Placed.widen h.2 hstart hstop⟩

instance : Placed (Round α) := .via Round.item?
instance : Placed (α ⊕ β) := .via fun x => (x.getLeft?, x.getRight?)

instance : Placed Block where
  inside _ _ := True
  lies src s x := x.LiesIn src s
  widen h hstart hstop := ⟨fun p hp => (h.1 p hp).widen hstart hstop,
    fun x hx => (h.2 x hx).widen hstart hstop⟩

end Placed

/-- A value lies in the bytes from `b` to where the cursor stands. -/
class Lies (src : String) (b : Nat) (c : Cursor) [Placed α] (a : α) : Prop where
  inside : Placed.inside src.utf8ByteSize a
  lies : Small src → Placed.lies src ⟨b, c.lastStop⟩ a

section Lies

variable [Placed α] [Placed β] {a : α} {a' : β} {as : List α}

theorem Lies.mono {d : Nat} (h : Lies src d c a) (hstart : Small src → b ≤ d)
    (hstop : c.lastStop ≤ c'.lastStop) : Lies src b c' a :=
  ⟨h.inside, fun hsmall => Placed.widen (h.lies hsmall) (hstart hsmall) hstop⟩

theorem lies_via {γ : Type} {f : γ → α} {x : γ} :
    @Lies γ src b c (.via f) x ↔ Lies src b c (f x) :=
  ⟨fun h => ⟨@h.inside, @h.lies⟩, fun h => @Lies.mk _ _ _ _ (_) _ h.inside h.lies⟩

/-- What was read lies where the cursor has come by now. -/
instance [hc : c.Onto src c'] [h : Lies src b c a] : Lies src b c' a :=
  h.mono (fun _ => Nat.le_refl b) hc.lastStop_le

instance (priority := low) {α : Type} {a : α} : Lies src b c a := ⟨trivial, fun _ => trivial⟩
instance : Lies src b c (none : Option α) := ⟨fun _ => nofun, fun _ _ => nofun⟩
instance [h : Lies src b c a] : Lies src b c (some a) :=
  ⟨fun _ ha => Option.some.inj ha ▸ h.inside, fun hsmall _ ha => Option.some.inj ha ▸ h.lies hsmall⟩
instance : Lies src b c ([] : List α) := ⟨fun _ => nofun, fun _ _ => nofun⟩
instance [h : Lies src b c a] [hs : Lies src b c as] : Lies src b c (a :: as) :=
  ⟨List.forall_mem_cons.mpr ⟨h.inside, hs.inside⟩,
    fun hsmall => List.forall_mem_cons.mpr ⟨h.lies hsmall, hs.lies hsmall⟩⟩
instance : Lies src b c (Round.done : Round α) :=
  lies_via.mpr (inferInstance : Lies src b c (none : Option α))
instance [Lies src b c a] : Lies src b c (Round.more a) :=
  lies_via.mpr (inferInstance : Lies src b c (some a))
instance [Lies src b c a] : Lies src b c (Round.last a) :=
  lies_via.mpr (inferInstance : Lies src b c (some a))
instance [h : Lies src b c a] [h' : Lies src b c a'] : Lies src b c (a, a') :=
  ⟨⟨h.inside, h'.inside⟩, fun hsmall => ⟨h.lies hsmall, h'.lies hsmall⟩⟩
instance [Lies src b c a] : Lies src b c (Sum.inl a : α ⊕ β) :=
  lies_via.mpr (inferInstance : Lies src b c (some a, (none : Option β)))
instance [Lies src b c a'] : Lies src b c (Sum.inr a' : α ⊕ β) :=
  lies_via.mpr (inferInstance : Lies src b c ((none : Option α), some a'))

instance Lies.fst {ab : α × β} [h : Lies src b c ab] : Lies src b c ab.1 :=
  ⟨h.inside.1, fun hsmall => (h.lies hsmall).1⟩
instance Lies.snd {ab : α × β} [h : Lies src b c ab] : Lies src b c ab.2 :=
  ⟨h.inside.2, fun hsmall => (h.lies hsmall).2⟩

instance {s : Span} {text : String} [h : Lies src b c s] : Lies src b c (Name.mk text s) :=
  lies_via.mpr h
instance {s : Span} {kind : LiteralKind} {text : String} [h : Lies src b c s] :
    Lies src b c (Literal.mk kind s text) :=
  lies_via.mpr h

instance {s : Span} [h : Lies src b c s] : Lies src b c (ImportName.dot s) := lies_via.mpr h
instance {s : Span} [h : Lies src b c s] : Lies src b c (ImportName.blank s) := lies_via.mpr h
instance {n : Name} [h : Lies src b c n] : Lies src b c (ImportName.name n) :=
  have h := lies_via.mp h
  lies_via.mpr h

theorem Lies.of_some {o : Option α} (h : Lies src b c o) (ha : o = some a) : Lies src b c a :=
  ⟨h.inside a ha, fun hsmall => h.lies hsmall a ha⟩

theorem Lies.of_mem (h : Lies src b c as) (ha : a ∈ as) : Lies src b c a :=
  ⟨h.inside a ha, fun hsmall => h.lies hsmall a ha⟩

end Lies

/-! ## Readers of what lies in a source -/

/-- The span of an expression reaches from `b` to where the cursor stands. -/
structure Framed (src : String) (b : Nat) (c : Cursor) (x : Expr) : Prop where
  span : Small src → x.span = ⟨b, c.lastStop⟩
  landed : c.Landed src

/-- What a reader that started at `c` has come to. -/
structure Got (e : Bool) (src : String) (b : Nat) (c : Cursor) [Placed α] (a : α) (c' : Cursor) :
    Prop where
  onto : c.Onto src c'
  lies : Lies src b c' a
  framed : e = true → ∀ x ∈ Placed.expr? a, Framed src b c' x

theorem Got.of_same [Placed α] {a : α} {d d' : Cursor} (h : Got e src b c a c') (hd : d.Same c)
    (hd' : c'.Same d') : Got e src b d a d' where
  onto := ((hd.onto' h.onto).trans (hd'.onto h.onto.ready))
  lies := h.lies.mono (fun _ => Nat.le_refl b) (Nat.le_of_eq hd'.lastStop.symm)
  framed he x hx :=
    have hx := h.framed he x hx
    ⟨fun hsmall => by rw [hx.span hsmall, hd'.lastStop], hd'.landed hx.landed⟩

/--
What is read from `c` on lies in the bytes since `b`, or takes them up if it is an
expression and `e` is set. What a fault is about lies in the source.
-/
class Nests (e : Bool) (src : String) (b : Nat) (c : Cursor) [Placed α] (p : Parser α) : Prop where
  settles : Settles p c (Got e src b c) fun fault => fault.span.Inside src.utf8ByteSize

theorem Nests.got [Placed α] {p : Parser α} {a : α} (h : Nests e src b c p)
    (hrun : p c = .ok a c') : Got e src b c a c' :=
  h.settles.yields a c' hrun

/-- Something that was read since `c`, and the knowledge about it. -/
structure Held (src : String) (b : Nat) (c : Cursor) (α : Type) [Placed α] where
  val : α
  after : Cursor
  onto : c.Onto src after
  lies : Lies src b after val

attribute [instance] Held.onto Held.lies

/-- What a reader has read. -/
structure Read (src : String) (b : Nat) (c : Cursor) [Placed α] (p : Parser α) extends
    Held src b c α where
  run : p c = .ok val after

/-- If an expression is to take up all bytes since `b`, it starts there. -/
class Start (e : Bool) (b : Nat) (c : Cursor) : Prop where
  eq : e = true → b = c.head.start

instance : Start false b c := ⟨nofun⟩
instance : Start e c.head.start c := ⟨fun _ => rfl⟩
instance [h : Start e b c] : Start e b (c.withDepth n) := ⟨h.eq⟩

/-- An expression that takes up all bytes since `b`, if it is asked to. -/
class Fills (e : Bool) (src : String) (b : Nat) (c : Cursor) [Placed α] (a : α) : Prop where
  framed : e = true → ∀ x ∈ Placed.expr? a, Framed src b c x

section Rules

variable [Placed α] {p q : Parser α} {t : Token} {a : α}

instance : Fills false src b c a := ⟨nofun⟩
instance : Fills e src b c (none : Option α) := ⟨fun _ _ => nofun⟩
instance [h : Fills e src b c a] : Fills e src b c (some a) := ⟨h.framed⟩

section Steps

variable {r : Parser β} {f : β → Parser α}

theorem Nests.of_after
    (h : Settles r c (fun a c' => c.Onto src c' ∧ Nests e src b c' (f a))
      fun fault => fault.span.Inside src.utf8ByteSize) : Nests e src b c (r >>= f) where
  settles := settles_bind.mpr <| h.mono fun _ _ hgot =>
    hgot.2.settles.mono fun _ _ h => ⟨hgot.1.trans h.onto, h.lies, h.framed⟩

/-- A look ahead takes nothing. -/
class Looks (p : Parser β) : Prop where
  settles : ∀ {c post stop}, (∀ a, post a c) → Settles p c post stop

instance : Looks (get : Parser Cursor) := ⟨fun h => settles_get.mpr (h _)⟩
instance : Looks (peek : Parser Token) := ⟨fun h => settles_peek.mpr (h _)⟩
instance : Looks (peekSecond : Parser Token) := ⟨fun h => settles_peekSecond.mpr (h _)⟩
instance {t : Token} : Looks (isAt t : Parser Bool) := ⟨fun h => settles_isAt.mpr (h _)⟩

theorem Nests.look [hr : Looks r] [hc : c.Ready src] (hf : ∀ a, Nests e src b c (f a)) :
    Nests e src b c (r >>= f) :=
  .of_after (hr.settles fun a => ⟨hc.onto_self, hf a⟩)

instance (priority := high) [Looks r] [c.Ready src] [hf : ∀ a, Nests e src b c (f a)] :
    Nests e src b c (r >>= f) :=
  .look hf

theorem Nests.peek {f : Token → Parser α} (h : Nests e src b c (f c.head.token)) :
    Nests e src b c (peek >>= f) :=
  ⟨settles_bind.mpr (settles_peek.mpr h.settles)⟩

/-- What lies behind some offset lies behind those before it. -/
theorem Nests.widen {d : Nat} (h : Nests e src d c p) (hle : Small src → b ≤ d)
    (heq : e = true → b = d) : Nests e src b c p where
  settles := h.settles.mono fun _ _ hgot =>
    ⟨hgot.onto, hgot.lies.mono hle (Nat.le_refl _), fun h => heq h ▸ hgot.framed h⟩

/-- A place that is looked at on the way. -/
theorem Nests.mark {f : Nat → Parser α} (h : Nests e src b c (f c.head.start)) :
    Nests e src b c (here >>= f) :=
  ⟨settles_bind.mpr (settles_here.mpr h.settles)⟩

/-- The place where something starts. -/
theorem Nests.here {f : Nat → Parser α} [hb : c.From src b] [he : Start e b c]
    (h : Nests e src c.head.start c (f c.head.start)) : Nests e src b c (here >>= f) :=
  (mark h).widen (fun _ => hb.le) he.eq

instance (priority := high) {f : Nat → Parser α} [c.From src b] [Start e b c]
    [h : Nests e src c.head.start c (f c.head.start)] : Nests e src b c (here >>= f) :=
  .here h

theorem Nests.spanFrom {f : Span → Parser α} {start : Nat}
    (h : Nests e src b c (f (c.spanFrom start))) : Nests e src b c (spanFrom start >>= f) :=
  ⟨settles_bind.mpr (settles_spanFrom.mpr h.settles)⟩

instance (priority := high) {f : Span → Parser α} {start : Nat}
    [h : Nests e src b c (f (c.spanFrom start))] : Nests e src b c (spanFrom start >>= f) :=
  .spanFrom h

variable [Placed β]

theorem Nests.bind {d : Nat} (hr : Nests false src d c r)
    (hf : ∀ r : Read src d c r, Nests e src b r.after (f r.val)) : Nests e src b c (r >>= f) :=
  .of_after <| hr.settles.mono_run fun _ _ hrun hgot =>
    ⟨hgot.onto, hf ⟨⟨_, _, hgot.onto, hgot.lies⟩, hrun⟩⟩

theorem Nests.step [hr : Nests false src b c r]
    (hf : ∀ r : Read src b c r, Nests e src b r.after (f r.val)) : Nests e src b c (r >>= f) :=
  hr.bind hf

instance [hr : Nests false src b c r]
    [hf : ∀ r : Read src b c r, Nests e src b r.after (f r.val)] : Nests e src b c (r >>= f) :=
  hr.bind hf

end Steps

instance [h : Nests e src b c p] : Nests e src b c (some <$> p) where
  settles := settles_map.mpr <| h.settles.mono fun _ _ h =>
    ⟨h.onto, have := h.lies; inferInstance, h.framed⟩

instance [Placed β] {f : α → β} [h : Nests false src b c p]
    [hf : ∀ d : Held src b c α, Lies src b d.after (f d.val)] : Nests false src b c (f <$> p) where
  settles := settles_map.mpr <| h.settles.mono fun a c' h =>
    ⟨h.onto, hf ⟨a, c', h.onto, h.lies⟩, nofun⟩

instance [h : Nests false src b c p] : Nests e src b c (discard p) where
  settles := settles_discard.mpr <| h.settles.mono fun _ _ h =>
    ⟨h.onto, inferInstance, fun _ _ => nofun⟩

instance {k : Prop} [Decidable k] [Nests e src b c p] [Nests e src b c q] :
    Nests e src b c (if k then p else q) := by
  split <;> infer_instance

section Ready

variable [hc : c.Ready src]

instance [h : Lies src b c a] [h' : Fills e src b c a] : Nests e src b c (pure a) :=
  ⟨settles_pure.mpr ⟨hc.onto_self, h, h'.framed⟩⟩

instance {s : Span} {fault : Fault} [h : Lies src b c s] :
    Nests e src b c (failAt s fault : Parser α) :=
  ⟨settles_failAt.mpr h.inside⟩

instance {fault : Fault} : Nests e src b c (failHere fault : Parser α) :=
  ⟨settles_failHere.mpr hc.head_inside⟩

instance {wanted : Wanted} : Nests e src b c (failExpected wanted : Parser α) :=
  ⟨settles_failExpected.mpr hc.head_inside⟩

/-! ### Making nodes -/

/-- A reader that takes nothing. -/
theorem Nests.of_same [hl : Lies src b c a] [he : Fills e src b c a]
    (h : Settles p c (fun a' c' => a' = a ∧ c.Same c') fun fault =>
      fault.span.Inside src.utf8ByteSize) : Nests e src b c p where
  settles := h.mono fun a' c' hgot => by
    obtain ⟨rfl, hsame⟩ := hgot
    exact Got.of_same ⟨hc.onto_self, hl, he.framed⟩ Cursor.same_self hsame

instance {x : Expr} [Lies src b c x] [Fills e src b c x] : Nests e src b c (makeExpr x) :=
  .of_same (settles_makeExpr.mpr ⟨rfl, Cursor.same_withBench⟩)
instance {x : Stmt} [Lies src b c x] [Fills e src b c x] : Nests e src b c (makeStmt x) :=
  .of_same (settles_makeStmt.mpr ⟨rfl, Cursor.same_withBench⟩)
instance {x : Decl} [Lies src b c x] [Fills e src b c x] : Nests e src b c (makeDecl x) :=
  .of_same (settles_makeDecl.mpr ⟨rfl, Cursor.same_withBench⟩)
instance {x : Field} [Lies src b c x] [Fills e src b c x] : Nests e src b c (makeField x) :=
  .of_same (settles_makeField.mpr ⟨rfl, Cursor.same_withBench⟩)
instance {xs : List Field} [Lies src b c xs] [Fills e src b c xs] :
    Nests e src b c (xs.mapM makeField) :=
  .of_same (settles_mapM_makeField fun _ => ⟨rfl, Cursor.same_withBench⟩)
instance {xs : List Expr} [Fills e src b c ()] :
    Nests e src b c (xs.forM fun x => discard (makeExpr x)) :=
  .of_same (settles_forM_makeExpr fun _ => ⟨rfl, Cursor.same_withBench⟩)

/-! ### Taking tokens -/

section Tokens

instance : c.Onto src c.advance := hc.onto_advance

theorem got_advance [hl : Lies src b c.advance a] : Got false src b c a c.advance :=
  ⟨hc.onto_advance, hl, nofun⟩

theorem got_self [hl : Lies src b c a] : Got false src b c a c :=
  ⟨hc.onto_self, hl, nofun⟩

/-- The token ahead is taken. -/
theorem Nests.take {f : Span → Parser α} (h : Nests e src b c.advance (f c.head.span)) :
    Nests e src b c (take >>= f) :=
  .of_after (settles_take.mpr ⟨hc.onto_advance, h⟩)

/-- Either the token was ahead and was taken, or nothing was. -/
theorem Nests.eats {k : Bool → Parser α} (h : Nests e src b c.advance (k true))
    (h' : Nests e src b c (k false)) : Nests e src b c (eats t >>= k) :=
  .of_after (settles_eats.mpr ⟨fun _ => ⟨hc.onto_advance, h⟩, fun _ => ⟨hc.onto_self, h'⟩⟩)

variable [hb : c.From src b]

instance : Lies src b c.advance c.head.span where
  inside := hc.head_inside
  lies hsmall := by
    have hbounds := hc.head_bounds
    rw [hc.head_span hsmall]
    exact ⟨⟨hbounds.2.2.1, hbounds.2.2.2, hbounds.1, hbounds.2.1⟩, hb.le, Nat.le_refl _⟩

instance : Nests false src b c (take : Parser Span) := ⟨settles_take.mpr got_advance⟩
instance : Nests false src b c (eat t : Parser (Option Span)) :=
  ⟨settles_eat.mpr ⟨fun _ => got_advance, fun _ => got_self⟩⟩
instance : Nests false src b c (eats t : Parser Bool) :=
  ⟨settles_eats.mpr ⟨fun _ => got_advance, fun _ => got_self⟩⟩
instance : Nests false src b c (expect t : Parser Span) :=
  ⟨settles_expect.mpr ⟨fun _ => got_advance, fun _ => hc.head_inside⟩⟩
instance : Nests false src b c (expectEnd : Parser Unit) :=
  ⟨settles_expectEnd (fun _ => got_advance) got_self hc.head_inside⟩

instance : Nests false src b c name :=
  ⟨settles_name.mpr ⟨fun _ _ => Got.of_same (c := c) got_advance Cursor.same_self
    Cursor.same_withBench, fun _ => hc.head_inside⟩⟩
instance : Nests false src b c (textLiteral? : Parser (Option Literal)) :=
  ⟨settles_textLiteral?.mpr ⟨fun _ _ _ _ => got_advance, fun _ => got_self⟩⟩
instance : Nests false src b c (enter : Parser Unit) :=
  ⟨settles_enter.mpr ⟨fun _ => Got.of_same (c := c) got_self Cursor.same_self
    Cursor.same_withDepth, fun _ => hc.head_inside⟩⟩

instance (priority := high) [h : Nests e src b c.advance p] [h' : Nests e src b c q] :
    Nests e src b c (eats t >>= fun taken => if taken = true then p else q) :=
  .eats (by simpa using h) (by simpa using h')

instance (priority := high) Nests.eat {f : Option Span → Parser α}
    [h : Nests e src b c.advance (f (some c.head.span))] [h' : Nests e src b c (f none)] :
    Nests e src b c (eat t >>= f) :=
  .of_after (settles_eat.mpr ⟨fun _ => ⟨hc.onto_advance, h⟩, fun _ => ⟨hc.onto_self, h'⟩⟩)

end Tokens

end Ready

instance [hc : c.Ready src] [h : Nests e src b (c.withDepth (c.depth + 1)) p] :
    Nests e src b c (nested p) where
  settles := settles_nested.mpr ⟨fun _ => h.settles.mono fun _ _ hgot =>
    hgot.of_same Cursor.same_withDepth Cursor.same_withDepth, fun _ => hc.head_inside⟩

instance [h : Nests e src b (c.withExprLevel (c.exprLevel + 1)) p] :
    Nests e src b c (bracketed p) where
  settles := settles_bracketed.mpr <| h.settles.mono fun _ _ hgot =>
    hgot.of_same Cursor.same_withExprLevel Cursor.same_withExprLevel

instance [h : Nests e src b (c.withExprLevel (-1)) p] : Nests e src b c (inHeader p) where
  settles := settles_inHeader.mpr <| h.settles.mono fun _ _ hgot =>
    hgot.of_same Cursor.same_withExprLevel Cursor.same_withExprLevel

/-- A place to read from. -/
structure Place (src : String) (b : Nat) where
  cursor : Cursor
  ready : cursor.Ready src
  past : cursor.From src b

attribute [instance] Place.ready Place.past

/-- A reader that may be started anywhere from `b` on. -/
class Anywhere (src : String) (b : Nat) (p : Parser α) : Prop where
  nests : ∀ {c : Cursor} [c.Ready src] [c.From src b], Nests false src b c p

instance [h : ∀ d : Place src b, Nests false src b d.cursor p] : Anywhere src b p :=
  ⟨fun {c} hc hb => h ⟨c, hc, hb⟩⟩

instance Nests.collect {round : Parser (Round α)} [hc : c.Ready src] [hb : c.From src b]
    [h : Anywhere src b round] : Nests false src b c (collect round) where
  settles := by
    refine (settles_collect (I := fun as c' => c.Onto src c' ∧ Lies src b c' as)
      ⟨hc.onto_self, inferInstance⟩ ?_ fun _ _ hgot => hgot.1.ready.head_inside).mono
      fun _ _ hgot => ⟨hgot.1, hgot.2, nofun⟩
    rintro as c₁ ⟨h₁, has⟩
    refine (h.nests (c := c₁)).settles.mono fun r c₂ hr => ?_
    refine ⟨h₁.trans hr.onto, ?_⟩
    have := hr.onto
    have hold : Lies src b c₂ as := inferInstance
    have hnew := hr.lies
    cases r with
    | done => exact hold
    | last a | more a =>
        refine ⟨List.forall_mem_append.mpr ⟨hold.inside, ?_⟩, fun hsmall =>
          List.forall_mem_append.mpr ⟨hold.lies hsmall, ?_⟩⟩
        · simpa using hnew.inside a rfl
        · simpa using hnew.lies hsmall a rfl

/-- A reader that takes nothing when it has no result. -/
class Halts (p : Parser (Option α)) : Prop where
  yields : ∀ c, Yields p c fun a c' => a = none → c.Same c'

instance {q : Parser (Option α)} [h : Halts q] : Halts (nested q) where
  yields _ := yields_nested.mpr fun _ => (h.yields _).mono fun _ _ hsame ha =>
    ⟨(hsame ha).rest, (hsame ha).sourceEnd, (hsame ha).lastStop⟩

instance {round : α → Parser (Option α)} [hstop : ∀ a, Halts (round a)] [hc : c.Ready src]
    [hl : Lies src b c a] [he : Fills e src b c a]
    [h : ∀ d : Held src b c α, Nests e src b d.after (round d.val)] :
    Nests e src b c (extend round a) where
  settles := by
    refine settles_extend (I := Got e src b c) ⟨hc.onto_self, hl, he.framed⟩
      (fun a c₁ hgot => ?_) fun _ _ hgot => hgot.onto.ready.head_inside
    refine (h ⟨a, c₁, hgot.onto, hgot.lies⟩).settles.mono_run fun next c₂ hrun hnext => ?_
    cases next with
    | none => exact hgot.of_same Cursor.same_self ((hstop a).yields c₁ none c₂ hrun rfl)
    | some a => exact ⟨hgot.onto.trans hnext.onto, hnext.lies.of_some rfl, hnext.framed⟩

/-! ### Lists -/

section Lists

attribute [local instance] Anywhere.nests

variable {item : Parser α} [Anywhere src b item] [c.Ready src] [c.From src b]

instance : Nests false src b c (commaRound item) := by
  unfold commaRound
  infer_instance

instance : Nests false src b c (commaList item) := by
  unfold commaList
  infer_instance

instance : Nests false src b c nameList := by
  unfold nameList
  infer_instance

/-- A round of a list up to a closing mark. -/
theorem nests_commaRoundUntil (item : Parser α) [Anywhere src b item] (close : Mark) :
    Nests false src b c (commaUntilRound close item) := by
  refine .look fun t => ?_
  split <;> infer_instance

variable {close : Mark}

instance : Nests false src b c (commaListUntil close item) :=
  Nests.collect (h := ⟨nests_commaRoundUntil item close⟩)

instance : Nests false src b c (moreUntil close item) := by
  unfold moreUntil
  infer_instance

instance : Nests false src b c (endedListUntil close item) := by
  refine Nests.collect (h := ⟨.look fun t => ?_⟩)
  split <;> infer_instance

end Lists

end Rules

end Grammar

end GoGloss
