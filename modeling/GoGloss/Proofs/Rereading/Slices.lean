import GoGloss.Proofs.Agreement.Basic
import GoGloss.Proofs.Respelling
import GoGloss.Proofs.TrailingNewlines

/-!
# The lexemes of a slice

From one token of a source to another that can end a statement, a slice is a source of its
own: its lexemes are those of the source in between, and the end of a line.
-/

namespace GoGloss

open Grammar Piece

/-! ## Rows of pieces -/

/--
A row of pieces holds the piece of a token `l`, which is told apart by the lexemes `pre` in
front of it, whatever other pieces follow.
-/
def HoldsToken (armed : Bool) (offset : Nat) (ps : List Piece) (pre : List Lexeme) (l : Lexeme) :
    Prop :=
  ∃ qs p rs, ps = qs ++ p :: rs ∧ p.token? l.start = some l.token ∧
    l.start = offset + byteSize (qs.flatMap text) ∧ l.stop = l.start + byteSize p.text ∧
    ∀ rs', Lexeme.ofPieces armed offset (qs ++ p :: rs') =
      pre ++ l :: Lexeme.ofPieces l.token.endsStatement l.stop rs'

theorem HoldsToken.cons {armed armed' : Bool} {offset : Nat} {p : Piece} {ps : List Piece}
    {front pre : List Lexeme} {l : Lexeme}
    (h : HoldsToken armed' (offset + byteSize p.text) ps pre l)
    (hcons : ∀ rs, Lexeme.ofPieces armed offset (p :: rs) =
      front ++ Lexeme.ofPieces armed' (offset + byteSize p.text) rs) :
    HoldsToken armed offset (p :: ps) (front ++ pre) l := by
  obtain ⟨qs, q, rs, rfl, hq, hstart, hstop, hrow⟩ := h
  refine ⟨p :: qs, q, rs, rfl, hq, ?_, hstop, fun rs' => ?_⟩
  · simp only [hstart, List.flatMap_cons, byteSize_append, Nat.add_assoc]
  · rw [List.cons_append, hcons, hrow, List.append_assoc]

theorem not_mem_fillerLineEnds {armed : Bool} {offset : Nat} {item : List Char} {l : Lexeme}
    (hl : l.isLineEnd = false) : l ∉ fillerLineEnds armed offset item := by
  intro hmem
  rw [fillerLineEnds] at hmem
  split at hmem
  · obtain ⟨place, -, rfl⟩ := List.mem_map.mp hmem
    simp [isLineEnd_lineEnd] at hl
  · cases hmem

theorem holdsToken_of_ofPieces {armed : Bool} {offset : Nat} {ps : List Piece}
    {pre post : List Lexeme} {l : Lexeme}
    (h : Lexeme.ofPieces armed offset ps = pre ++ l :: post) (hl : l.isLineEnd = false) :
    HoldsToken armed offset ps pre l := by
  induction ps generalizing armed offset pre with
  | nil =>
      have hmem : l ∈ Lexeme.ofPieces armed offset [] := by simp [h]
      rw [Lexeme.ofPieces] at hmem
      split at hmem
      · simp [List.mem_singleton.mp hmem, isLineEnd_lineEnd] at hl
      · cases hmem
  | cons p ps ih =>
      cases htoken : p.token? offset with
      | some t =>
          have hcons : ∀ rs, Lexeme.ofPieces armed offset (p :: rs) = [_] ++ _ :=
            fun rs => ofPieces_token rs htoken
          cases pre with
          | cons l' pre =>
              obtain ⟨rfl, hrest⟩ := List.cons.inj ((hcons ps).symm.trans h)
              exact (ih hrest).cons hcons
          | nil =>
              obtain ⟨rfl, -⟩ := List.cons.inj ((hcons ps).symm.trans h)
              exact ⟨[], p, ps, rfl, htoken, rfl, rfl, hcons⟩
      | none =>
          have hcons : ∀ rs, Lexeme.ofPieces armed offset (p :: rs) = _ :=
            fun rs => ofPieces_filler rs htoken
          rcases List.append_eq_append_iff.mp ((hcons ps).symm.trans h) with
            ⟨pre', rfl, hrest⟩ | ⟨front, hfront, hrest⟩
          · exact (ih hrest).cons hcons
          · cases front with
            | nil =>
                obtain rfl : fillerLineEnds armed offset p.text = pre := by simpa using hfront
                have hnone := ih (hrest.symm.trans (List.nil_append _).symm)
                simpa using hnone.cons hcons
            | cons l' front =>
                obtain ⟨rfl, -⟩ := List.cons.inj hrest
                have hmem : l ∈ fillerLineEnds armed offset p.text := by simp [hfront]
                exact absurd hmem (not_mem_fillerLineEnds hl)

/-- Behind the start of a source, what a reader sees does not depend on the offset. -/
theorem ofPieces_sights (armed : Bool) {offset offset' : Nat} (h : offset ≠ 0) (h' : offset' ≠ 0)
    (ps : List Piece) : (Lexeme.ofPieces armed offset ps).map sight =
      (Lexeme.ofPieces armed offset' ps).map sight := by
  induction ps generalizing armed offset offset' with
  | nil => cases armed <;> simp [Lexeme.ofPieces, sight, isLineEnd_lineEnd]; rfl
  | cons p ps ih =>
      have htokens : p.token? offset = p.token? offset' := by simp [token?, h, h']
      have hrest := fun armed => @ih armed (offset + byteSize p.text) (offset' + byteSize p.text)
        (by omega) (by omega)
      cases htoken : p.token? offset with
      | some t =>
          rw [ofPieces_token _ htoken, ofPieces_token _ (htokens ▸ htoken), List.map_cons,
            List.map_cons, hrest]
          have hwidth : ∀ n, (n == n + byteSize p.text) = (byteSize p.text == 0) := by
            intro n
            simp [Bool.beq_eq_decide_eq]
          simp only [sight, Lexeme.isLineEnd, hwidth]
      | none =>
          rw [ofPieces_filler _ htoken, ofPieces_filler _ (htokens ▸ htoken), List.map_append,
            List.map_append]
          unfold fillerLineEnds lineBreak?
          cases armed <;> cases p.text.any isLineBreak <;> simp [hrest, sight, isLineEnd_lineEnd]
          rfl

/-- The pieces of a source in two parts are those of the two parts. -/
theorem Piece.cut_append {cs : List Char} {ps qs : List Piece} (h : cut 0 cs = ps ++ qs) :
    ∃ rest, cs = ps.flatMap text ++ rest ∧ cut 0 rest = qs := by
  induction ps generalizing cs with
  | nil => exact ⟨cs, rfl, h⟩
  | cons p ps ih =>
      obtain ⟨c, text, rest, htext, rfl, -, hrest⟩ := cut_eq_cons h
      obtain ⟨rest', rfl, hqs⟩ := ih hrest
      exact ⟨rest', by simp [htext], hqs⟩

/-- A source that starts with a token looks the same wherever it starts. -/
theorem ofPieces_sights_token {p : Piece} {t : Token} (hp : p.kind = .token t)
    (hpos : 0 < byteSize p.text) (armed : Bool) (offset offset' : Nat) (ps : List Piece) :
    (Lexeme.ofPieces armed offset (p :: ps)).map sight =
      (Lexeme.ofPieces armed offset' (p :: ps)).map sight := by
  have htoken : ∀ n, p.token? n = some t := fun n => by simp [token?, hp]
  rw [ofPieces_token _ (htoken offset), ofPieces_token _ (htoken offset'), List.map_cons,
    List.map_cons, ofPieces_sights _ (by omega) (by omega : offset' + byteSize p.text ≠ 0)]
  rw [sight, sight, isLineEnd_eq_false t (by omega), isLineEnd_eq_false t (by omega)]

/-- A token that can end a statement is no point. -/
theorem first_text_ne_point {c : Char} {cs : List Char} {t : Token}
    (hkind : (first c cs).kind = .token t) (hends : t.endsStatement) :
    (first c cs).text ≠ ['.'] := by
  intro htext
  obtain ⟨rest, hrest, -⟩ := first_fits 0 c cs
  obtain rfl : c = '.' := by rw [htext] at hrest; exact (List.cons.inj hrest).1
  have hlegal : ∀ flaw, (first '.' cs).kind ≠ .token (.illegal flaw) := by
    intro flaw h
    obtain rfl := PieceKind.token.inj (hkind.symm.trans h)
    cases hends
  cases hdigit : cs.head?.any Char.isDigit with
  | true =>
      have hlead : lead '.' cs.head? = .number := by
        rw [lead, if_neg (by decide), if_neg (by decide), if_neg (by decide), if_neg (by decide),
          if_pos (by simp [hdigit])]
      rw [first_eq, hlead] at htext hlegal
      exact number_text_ne_point hlegal htext
  | false =>
      have hlead : lead '.' cs.head? = .mark := lead_eq_none (by simp [hdigit]) (by simp)
      rw [first_eq, hlead, Lead.piece, mark] at hkind htext
      split at htext
      · rename_i m hm
        rw [hm] at hkind
        obtain rfl := PieceKind.token.inj hkind
        have hmark : ∀ m : Mark, (Token.mark m).endsStatement → m.text.toList ≠ ['.'] := by
          intro m
          cases m <;> decide
        exact hmark m hends htext
      · rename_i hm
        rw [hm] at hkind
        obtain rfl := PieceKind.token.inj hkind
        cases hends

/-- The pieces from one token to another that can end a statement are a source of their own. -/
theorem cut_between {qs rs : List Piece} {q : Piece} {cs : List Char} {t : Token} {offset : Nat}
    (hcut : cut 0 cs = qs ++ q :: rs) (hq : q.kind = .token t) (hends : t.endsStatement)
    (hlegal : ∀ p ∈ qs ++ [q], ∀ flaw, p.kind ≠ .token (.illegal flaw)) (hoffset : offset ≠ 0)
    (hrest : lexicalDiagnostics (Lexeme.ofPieces true offset rs) = []) :
    ∃ rest, cs = (qs ++ [q]).flatMap text ++ rest ∧
      cut 0 ((qs ++ [q]).flatMap text) = qs ++ [q] := by
  obtain ⟨after, rfl, hafter⟩ := cut_append hcut
  obtain ⟨c, text, rest, htext, rfl, rfl, rfl⟩ := cut_eq_cons hafter
  refine ⟨rest, by simp [htext], ?_⟩
  generalize hmid : (qs ++ [first c (text ++ rest)]).flatMap Piece.text = mid
  have hsplit : qs.flatMap Piece.text ++ c :: (text ++ rest) = mid ++ rest := by
    simp [← hmid, htext]
  rw [hsplit] at hcut
  have hlocal : cut 0 (mid ++ []) = (qs ++ [first c (text ++ rest)]) ++ cut 0 [] := by
    refine cut_local (by simpa using hcut) hmid hlegal (isNamePart_of_legal hoffset hrest) ?_
      (by simp)
    -- the last piece is no point
    intro ps hps hpoint
    rcases List.suffix_concat_iff.mp hps with rfl | ⟨ps, rfl, -⟩
    · cases hpoint
    · refine absurd ?_ (first_text_ne_point hq hends)
      rw [List.flatMap_append, List.flatMap_singleton] at hpoint
      rcases List.append_eq_singleton_iff.mp hpoint with ⟨-, htext'⟩ | ⟨-, htext'⟩
      · exact htext'
      · simp [htext] at htext'
  simpa [cut] using hlocal

/--
**A slice of a source is lexed like the source.** From a token to one that can end a
statement, the slice has the lexemes of the source in between, and the end of a line.
-/
theorem tokenize_text {src : String} (hlegal : lexicalDiagnostics (tokenize src) = [])
    {pre ls post : List Lexeme} {f l : Lexeme} (hsrc : tokenize src = pre ++ (f :: ls ++ post))
    (hf : f.isLineEnd = false) (hlast : (f :: ls).getLast? = some l)
    (hends : l.token.endsStatement) :
    (tokenize (Span.text src ⟨f.start, l.stop⟩)).map sight =
      (f :: ls).map sight ++ [(.mark .semicolon, true)] := by
  have hpieces := kind_ne_illegal hlegal
  rw [lexicalDiagnostics_eq_nil_iff, List.forall_mem_map] at hlegal
  obtain ⟨ms, hms⟩ := List.getLast?_eq_some_iff.mp hlast
  have hl : l.isLineEnd = false := by
    rw [Lexeme.isLineEnd, Bool.and_eq_false_iff, decide_eq_false_iff_not]
    exact .inl fun h => by simp [h, Token.endsStatement] at hends
  -- the piece of the first token, and those of the others up to the last
  obtain ⟨ps, p, ts, hps, hp, hstart, hstop, hrow⟩ := holdsToken_of_ofPieces hsrc hf
  have hrest : Lexeme.ofPieces false f.start (p :: ts) = ms ++ l :: post := by
    have htail : Lexeme.ofPieces f.token.endsStatement f.stop ts = ls ++ post := by
      have h := hrow ts
      rw [← hps] at h
      simpa using h.symm.trans hsrc
    rw [ofPieces_token _ hp, ← hstop, htail]
    simpa using congrArg (· ++ post) hms
  obtain ⟨qs, q, rs, hqs, hq, hstart', hstop', hrow'⟩ := holdsToken_of_ofPieces hrest hl
  obtain ⟨cs, hcs, hcut⟩ := Piece.cut_append hps
  rw [hqs] at hcut
  have hkind : q.kind = .token l.token := kind_of_token? hq (hlegal l (by simp [hsrc, hms]))
  have hmem : ∀ m ∈ f :: ls ++ post, m ∈ tokenize src := fun m hm => by simp_all
  have hpost : Lexeme.ofPieces true l.stop rs = post := by
    have h := hrow' rs
    rw [← hqs, hrest, hends] at h
    simpa using h.symm
  have hrest : lexicalDiagnostics (Lexeme.ofPieces true l.stop rs) = [] := by
    rw [hpost, lexicalDiagnostics_eq_nil_iff, List.forall_mem_map]
    exact fun m hm => hlegal m (hmem m (List.mem_append_right _ hm))
  have hzero : l.stop ≠ 0 :=
    Nat.ne_zero_of_lt ((lossless_tokenize src).nonempty l (by simp [hsrc, hms]) hl)
  obtain ⟨rest, rfl, hmid⟩ := cut_between hcut hkind hends
    (fun r hr => hpieces r (by rw [hps, hqs]; simp at hr ⊢; tauto)) hzero hrest
  have htext : Span.text src ⟨f.start, l.stop⟩ = String.ofList ((qs ++ [q]).flatMap text) := by
    have hsizes : byteSize (ps.flatMap text) = f.start ∧
        byteSize (ps.flatMap text) + byteSize ((qs ++ [q]).flatMap text) = l.stop := by
      simp only [List.flatMap_append, List.flatMap_singleton, byteSize_append]
      omega
    rw [Span.text, hcs, ← hsizes.1, ← hsizes.2, slice?_byteSize]
  rw [htext, tokenize, ofSource, String.toList_ofList, hmid]
  obtain ⟨us, hus⟩ : ∃ us, qs ++ [q] = p :: us := by
    cases qs with
    | nil => exact ⟨[], by simp_all⟩
    | cons p' qs => exact ⟨qs ++ [q], by simp_all⟩
  have hp' := kind_of_token? hp (hlegal f (by simp [hsrc]))
  have hwide := (lossless_tokenize src).nonempty f (by simp [hsrc]) hf
  rw [hus, ofPieces_sights_token hp' (by omega) false 0 f.start, ← hus, hrow' [], hends, hms]
  simp [Lexeme.ofPieces, sight, isLineEnd_lineEnd]
  rfl

end GoGloss
