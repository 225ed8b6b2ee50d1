import GoGloss.Proofs.Pieces

/-!
# How lexemes lie in a source

A source is a gap, a token, a gap, a token, and so on, and a last gap. The gaps
are made of fillers, the tokens are written out, and where a line ends in the gap
behind a token that can end a statement, a semicolon of no width lies at that
place. `Layout` says this of a source and its lexemes, and it does not mention
pieces: it is what is left to know once they have done their work.

The layout is carried along a cut with two pieces of state, the offset and
whether the token before the gap can end a statement. A gap grows by one filler at
a time, from the front, so the step that matters is `Layout.cons_filler`.
-/

namespace GoGloss

/-- `Trivia offset gap rest`: the gap at `offset`, in front of `rest`, is made of fillers. -/
inductive Trivia : Nat → List Char → List Char → Prop where
  | nil {offset : Nat} {rest : List Char} : Trivia offset [] rest
  | cons {offset : Nat} {item gap rest : List Char} :
      Filler offset item (gap ++ rest) → Trivia (offset + byteSize item) gap rest →
      Trivia offset (item ++ gap) rest

/--
Where the line ends in a gap: at its first line break. A gap that nothing follows
ends its line in any case, at the latest where it ends itself.
-/
def lineEnd? (offset : Nat) (gap : List Char) (last : Bool) : Option Nat :=
  match gap.findIdx? Piece.isLineBreak with
  | some i => some (offset + byteSize (gap.take i))
  | none => if last then some (offset + byteSize gap) else none

/-- The semicolon for the end of the line in a gap, if the token before it asks for one. -/
def lineEnds (armed : Bool) (offset : Nat) (gap : List Char) (last : Bool) : List Lexeme :=
  if armed then (lineEnd? offset gap last).toList.map Lexeme.lineEnd else []

/--
`Layout armed offset cs ls`: the lexemes of `cs`, which starts at `offset`, are
`ls`, where `armed` says whether the token before can end a statement.
-/
inductive Layout : Bool → Nat → List Char → List Lexeme → Prop where
  | done {armed : Bool} {offset : Nat} {gap : List Char} :
      Trivia offset gap [] → Layout armed offset gap (lineEnds armed offset gap true)
  | token {armed : Bool} {offset : Nat} {gap text rest : List Char} {t : Token}
      {ls : List Lexeme} :
      Trivia offset gap (text ++ rest) → t.WrittenAs text rest →
      Layout t.endsStatement (offset + byteSize gap + byteSize text) rest ls →
      Layout armed offset (gap ++ (text ++ rest))
        (lineEnds armed offset gap false ++
          ⟨offset + byteSize gap, offset + byteSize gap + byteSize text, t⟩ :: ls)

/-! ## Line ends, filler by filler -/

/-- The semicolon that a filler on its own gives rise to. -/
def fillerLineEnds (armed : Bool) (offset : Nat) (item : List Char) : List Lexeme :=
  if armed then (lineBreak? offset item).toList.map Lexeme.lineEnd else []

theorem lineEnd?_nil (offset : Nat) (last : Bool) :
    lineEnd? offset [] last = if last then some offset else none := by
  simp [lineEnd?]

theorem lineBreak?_eq (offset : Nat) (text : List Char) :
    lineBreak? offset text =
      (text.findIdx? Piece.isLineBreak).map fun i => offset + byteSize (text.take i) := by
  induction text generalizing offset with
  | nil => rfl
  | cons c text ih =>
      have h := ih (offset + c.utf8Size)
      by_cases hc : Piece.isLineBreak c = true
      · simp [lineBreak?, List.findIdx?_cons, hc]
      · replace hc : Piece.isLineBreak c = false := by simpa using hc
        simp only [lineBreak?, List.findIdx?_cons, List.any_cons, List.takeWhile_cons, hc,
          Bool.false_or, Bool.not_false, if_true, byteSize_cons] at h ⊢
        rw [← Nat.add_assoc, h]
        simp [Function.comp_def, Nat.add_assoc]

/-- The line end of a gap is that of its first filler, or else that of the others. -/
theorem lineEnd?_append (offset : Nat) (item gap : List Char) (last : Bool) :
    lineEnd? offset (item ++ gap) last =
      (lineBreak? offset item).or (lineEnd? (offset + byteSize item) gap last) := by
  rw [lineBreak?_eq, lineEnd?, List.findIdx?_append]
  cases hitem : item.findIdx? Piece.isLineBreak with
  | some i =>
      have hi : i < item.length := (List.findIdx?_eq_some_iff_findIdx_eq.mp hitem).1
      simp [List.take_append_of_le_length (Nat.le_of_lt hi)]
  | none =>
      rw [lineEnd?]
      cases gap.findIdx? Piece.isLineBreak with
      | some i =>
          have htake : item.take (i + item.length) = item := List.take_of_length_le (by omega)
          simp [List.take_append, htake, Nat.add_assoc]
      | none => cases last <;> simp [Nat.add_assoc]

/-- Once a filler has ended the line, the rest of the gap no longer can. -/
theorem lineEnds_append (armed : Bool) (offset : Nat) (item gap : List Char) (last : Bool) :
    lineEnds armed offset (item ++ gap) last =
      fillerLineEnds armed offset item ++
        lineEnds (armed && (lineBreak? offset item).isNone) (offset + byteSize item) gap last := by
  cases armed with
  | false => rfl
  | true =>
      simp only [lineEnds, fillerLineEnds, lineEnd?_append, if_true, Bool.true_and]
      cases lineBreak? offset item with
      | some place => simp
      | none => simp

/-! ## The layout of the pieces -/

/-- A filler in front of a source that is laid out lengthens its first gap. -/
theorem Layout.cons_filler {armed : Bool} {offset : Nat} {item cs : List Char}
    {ls : List Lexeme} (hf : Filler offset item cs)
    (h : Layout (armed && (lineBreak? offset item).isNone) (offset + byteSize item) cs ls) :
    Layout armed offset (item ++ cs) (fillerLineEnds armed offset item ++ ls) := by
  cases h with
  | @done _ _ gap hgap =>
      rw [← lineEnds_append]
      exact Layout.done (Trivia.cons (by rwa [List.append_nil]) hgap)
  | @token _ _ gap text rest t ls hgap hwritten hrest =>
      rw [← List.append_assoc (fillerLineEnds _ _ _), ← lineEnds_append, ← List.append_assoc item]
      have hsize : offset + byteSize item + byteSize gap = offset + byteSize (item ++ gap) := by
        rw [byteSize_append, Nat.add_assoc]
      rw [hsize] at hrest ⊢
      exact Layout.token (Trivia.cons hf hgap) hwritten hrest

theorem Filler.ne_nil {offset : Nat} {item rest : List Char} (h : Filler offset item rest) :
    item ≠ [] := by
  cases h <;> simp

theorem Piece.Fits.text_ne_nil {offset : Nat} {p : Piece} {rest : List Char}
    (h : p.Fits offset rest) : p.text ≠ [] := by
  unfold Piece.Fits at h
  split at h
  · exact h.nonempty
  · exact h.ne_nil

/-- The lexemes of a filler and what follows it. -/
theorem ofPieces_filler {armed : Bool} {offset : Nat} {p : Piece} (ps : List Piece)
    (h : p.token? offset = none) :
    Lexeme.ofPieces armed offset (p :: ps) =
      fillerLineEnds armed offset p.text ++
        Lexeme.ofPieces (armed && (lineBreak? offset p.text).isNone)
          (offset + byteSize p.text) ps := by
  rw [Lexeme.ofPieces.eq_def]
  simp only [h]
  cases armed with
  | false => rfl
  | true => cases hbreak : lineBreak? offset p.text <;> simp [fillerLineEnds, hbreak]

/-- The lexemes of a token and what follows it. -/
theorem ofPieces_token {armed : Bool} {offset : Nat} {p : Piece} {t : Token} (ps : List Piece)
    (h : p.token? offset = some t) :
    Lexeme.ofPieces armed offset (p :: ps) =
      ⟨offset, offset + byteSize p.text, t⟩ ::
        Lexeme.ofPieces t.endsStatement (offset + byteSize p.text) ps := by
  rw [Lexeme.ofPieces.eq_def]
  simp only [h]

/--
**The lexemes of a source are laid out in it.**

By induction on the length of what is left to cut: the first piece is a filler,
which lengthens the first gap of the rest, or a token, in front of which there is
no gap.
-/
theorem layout_cut (cs : List Char) : ∀ (armed : Bool) (offset : Nat),
    Layout armed offset cs (Lexeme.ofPieces armed offset (Piece.cut 0 cs)) := by
  induction hn : cs.length using Nat.strongRecOn generalizing cs with
  | ind n ih =>
    intro armed offset
    cases cs with
    | nil =>
        have h := @Layout.done armed offset [] Trivia.nil
        rw [lineEnds, lineEnd?_nil] at h
        exact h
    | cons c cs =>
        obtain ⟨rest, hrest, hfits⟩ := Piece.first_fits offset c cs
        have hne := hfits.text_ne_nil
        have hlt : rest.length < n := by
          have := List.length_pos_iff.mpr hne
          rw [← hn, hrest, List.length_append]; omega
        rw [Piece.cut_cons hrest hne, hrest]
        cases htoken : (Piece.first c cs).token? offset with
        | some t =>
            rw [Piece.Fits, htoken] at hfits
            have h := @Layout.token armed offset [] _ _ _ _ Trivia.nil hfits
              (ih _ hlt rest rfl t.endsStatement _)
            rw [ofPieces_token _ htoken]
            simpa [lineEnds, lineEnd?_nil] using h
        | none =>
            rw [Piece.Fits, htoken] at hfits
            rw [ofPieces_filler _ htoken]
            exact Layout.cons_filler hfits (ih _ hlt rest rfl _ _)

/-- A whole source is laid out from its start, where no token comes before. -/
theorem layout_tokenize (src : String) : Layout false 0 src.toList (tokenize src) :=
  layout_cut src.toList false 0

end GoGloss
