import GoGloss.Proofs.Legible
import GoGloss.Proofs.Verbatim.Basic

/-!
# The text of a verbatim expression

A verbatim expression is said as it is written. Its text is cut into the tokens of its
spelling, provided that what follows does not run together with its end. Within the text
an expression is followed by a bracket, a comma, a colon or a blank, and only in front of
a selector or a type assertion by a point, which a number would take for its own.
-/

namespace GoGloss

open Character Piece Phrase

/-! ## Marks and names in front of a rest -/

theorem closed_cons {c : Char} (h : c ∈ closers) (rest : List Char) : Closed (c :: rest) := by
  intro d hd
  obtain rfl : c = d := by simpa using hd
  exact h

theorem closed_nil : Closed [] := by
  simp [Closed]

theorem speltAs_mark {m : Mark} {rest : List Char}
    (hrest : ∀ d ∈ rest.head?, m.endsBefore d = true) :
    SpeltAs m.text.toList [.mark m] rest :=
  speltAs_token (by simp) (cut_mark m hrest)

theorem speltAs_bracket {m : Mark} (hm : m ∈ [.lparen, .rparen, .lbrack, .rbrack, .comma])
    {rest : List Char} : SpeltAs m.text.toList [.mark m] rest :=
  speltAs_mark fun d _ => Mark.endsBefore_bracket hm d

/-- What an expression without an operator in front starts with. -/
def opensOperand (c : Char) : Bool :=
  isNameStart c || startsLiteral c || c == '('

/-- No operator goes on with the first character of an operand. -/
theorem endsBefore_operand (op : UnaryOp) {d : Char} (h : opensOperand d = true) :
    op.mark.endsBefore d = true := by
  by_cases hpoint : d = '.'
  · subst hpoint
    cases op <;> decide +kernel
  · refine Mark.endsBefore_of_notMem ?_ (by cases op <;> simp [UnaryOp.mark])
    have hnone : ['<', '>', '=', '^', '&', '|', '+', '-', '/', '*'].all (!opensOperand ·) = true := by
      decide +kernel
    intro hmem
    rcases List.mem_cons.mp hmem with rfl | hmem
    · exact hpoint rfl
    · exact absurd (List.all_eq_true.mp hnone d hmem) (by simp [h])

/-- Nor is the point of a selector part of a number or of three. -/
theorem dot_endsBefore {d : Char} (h : isNameStart d = true ∨ d = '(') :
    Mark.dot.endsBefore d = true := by
  have hnone : ['.', '<', '>', '=', '^', '&', '|', '+', '-', '/', '*'].all (!isNameStart ·) =
      true := by decide +kernel
  rcases h with h | rfl
  · refine Mark.endsBefore_of_notMem (fun hmem => ?_) fun _ => ?_
    · exact absurd (List.all_eq_true.mp hnone d hmem) (by simp [h])
    cases hdigit : d.isDigit with
    | false => rfl
    | true => exact absurd (isNameStart_of_isDigit hdigit) (by simp [h])
  · decide +kernel

/-- Something between brackets. -/
theorem speltAs_bracketed (m m' : Mark) {text rest : List Char} {ts : List Token}
    (hm : m ∈ [.lparen, .rparen, .lbrack, .rbrack, .comma])
    (hm' : m' ∈ [.lparen, .rparen, .lbrack, .rbrack, .comma])
    (h : SpeltAs text ts (m'.text.toList ++ rest)) :
    SpeltAs (m.text.toList ++ (text ++ m'.text.toList)) (.mark m :: (ts ++ [.mark m'])) rest :=
  (speltAs_bracket hm).append (h.append (speltAs_bracket hm'))

/-! ## What an expression says -/

/-- What follows an expression does not run together with its end. -/
def MayFollow (x : Expr) (rest : List Char) : Prop :=
  Closed rest ∨ rest.head? = some '.' ∧ 7 ≤ x.tightness ∧ x.isNumber = false

/-- A text is that of an expression, and is read as its tokens. -/
structure Says (x : Expr) (text : List Char) : Prop where
  write : ∀ out, (x.write out).toList = out.toList ++ text
  head : ∃ c cs, text = c :: cs ∧ c ≠ '=' ∧ (7 ≤ x.tightness → opensOperand c = true)
  spelt : ∀ rest, MayFollow x rest → SpeltAs text x.spelling rest

section Says

variable {x y : Expr} {text : List Char}

/-- An expression between brackets, commas and colons. -/
theorem Says.closed (h : Says x text) {rest : List Char} (hrest : Closed rest) :
    SpeltAs text x.spelling rest :=
  h.spelt rest (.inl hrest)

theorem MayFollow.head {rest : List Char} (h : MayFollow x rest) {p : Char → Bool}
    (hclosers : closers.all (!p ·) = true) (hpoint : p '.' = false) :
    ∀ c ∈ rest.head?, p c = false := by
  rcases h with h | ⟨h, -⟩
  · exact h.head hclosers
  · intro c hc
    obtain rfl : '.' = c := by simpa [h] using hc
    exact hpoint

theorem exists_isNameStart {name : String} (hname : (Token.name name).ReadApart) :
    ∃ c cs, name.toList = c :: cs ∧ isNameStart c = true := by
  have h := isIdentifier_of_readApart hname
  simp only [isIdentifier, Bool.and_eq_true, Option.any_eq_true] at h
  obtain ⟨⟨⟨c, hc, hstart⟩, -⟩, -⟩ := h
  obtain ⟨cs, hcs⟩ := List.head?_eq_some_iff.mp hc
  exact ⟨c, cs, hcs, hstart⟩

theorem ne_equals_of_opensOperand {c : Char} (h : opensOperand c = true) : c ≠ '=' := by
  rintro rfl
  exact absurd h (by decide +kernel)

theorem says_ident {name : Name} (hname : (Token.name name.text).ReadApart) :
    Says (.ident name) name.text.toList where
  write out := by rw [Expr.write, String.toList_append]
  head := by
    obtain ⟨c, cs, htext, hstart⟩ := exists_isNameStart hname
    have hopens : opensOperand c = true := by simp [opensOperand, hstart]
    exact ⟨c, cs, htext, ne_equals_of_opensOperand hopens, fun _ => hopens⟩
  spelt rest hrest := hname.speltAs (hrest.head (by decide) (by decide))

theorem says_literal {lit : Literal} (hlit : (Token.literal lit.kind lit.text).ReadApart) :
    Says (.literal lit) lit.text.toList where
  write out := by rw [Expr.write, String.toList_append]
  head := by
    obtain ⟨c, cs, htext, hfirst⟩ := hlit.first_eq
    have hstart := (first_of_literal hfirst fun _ => closed_nil).1
    have hopens : opensOperand c = true := by simp [opensOperand, hstart]
    exact ⟨c, cs, htext, ne_equals_of_opensOperand hopens, fun _ => hopens⟩
  spelt rest hrest := by
    refine hlit.speltAs fun hnumber => ?_
    rcases hrest with hrest | ⟨-, -, hnot⟩
    · exact hrest
    · exact absurd hnumber (Bool.eq_false_iff.mp hnot)

theorem says_paren {span lparen rparen : Span} (h : Says x text) :
    Says (.paren span lparen x rparen) ('(' :: (text ++ [')'])) where
  write out := by simp [Expr.write, h.write]
  head := ⟨'(', _, rfl, by decide, fun _ => rfl⟩
  spelt rest _ := by
    rw [Expr.spelling]
    exact speltAs_bracketed .lparen .rparen (by decide) (by decide)
      (h.closed (closed_cons (by decide) rest))

/-- An operand and what follows it. -/
theorem Says.operand {more : List Char} {us : List Token} (hx : Says x text)
    (htight : 7 ≤ x.tightness) (hwrite : ∀ out, (y.write out).toList = (x.write out).toList ++ more)
    (hspelling : y.spelling = x.spelling ++ us) (hfollow : ∀ rest, MayFollow x (more ++ rest))
    (hmore : ∀ rest, MayFollow y rest → SpeltAs more us rest) : Says y (text ++ more) where
  write out := by rw [hwrite, hx.write, List.append_assoc]
  head := by
    obtain ⟨c, cs, htext, hne, hopens⟩ := hx.head
    exact ⟨c, cs ++ more, by rw [htext]; rfl, hne, fun _ => hopens htight⟩
  spelt rest hrest := by
    rw [hspelling]
    exact (hx.spelt _ (hfollow rest)).append (hmore rest hrest)

theorem mayFollow_closer {c : Char} (hc : c ∈ closers) (rest : List Char) :
    MayFollow x (c :: rest) :=
  .inl (closed_cons hc rest)

theorem mayFollow_point (htight : 7 ≤ x.tightness) (hnumber : x.isNumber = false)
    (rest : List Char) : MayFollow x ('.' :: rest) :=
  .inr ⟨rfl, htight, hnumber⟩

theorem says_selector {span : Span} {member : Name} (hx : Says x text) (htight : 7 ≤ x.tightness)
    (hnumber : x.isNumber = false) (hmember : (Token.name member.text).ReadApart) :
    Says (.selector span x member) (text ++ '.' :: member.text.toList) := by
  refine hx.operand htight (fun out => by simp [Expr.write]) (by rw [Expr.spelling])
    (fun rest => mayFollow_point htight hnumber _) fun rest hrest => ?_
  have hdot : SpeltAs ['.'] [.mark .dot] (member.text.toList ++ rest) := by
    obtain ⟨c, cs, hname, hstart⟩ := exists_isNameStart hmember
    refine speltAs_mark (m := .dot) fun d hd => dot_endsBefore (.inl ?_)
    rw [hname] at hd
    obtain rfl : c = d := by simpa using hd
    exact hstart
  exact hdot.append (hmember.speltAs (hrest.head (by decide) (by decide)))

theorem says_index {span : Span} {i : Expr} {textI : List Char} (hx : Says x text)
    (htight : 7 ≤ x.tightness) (hi : Says i textI) :
    Says (.index span x i) (text ++ '[' :: (textI ++ [']'])) := by
  refine hx.operand htight (fun out => by simp [Expr.write, hi.write]) (by rw [Expr.spelling])
    (fun rest => mayFollow_closer (by decide) _) fun rest _ => ?_
  exact speltAs_bracketed .lbrack .rbrack (by decide) (by decide)
    (hi.closed (closed_cons (by decide) rest))

/-- Several expressions, each with a comma in front, and nothing that they run together with. -/
theorem exists_text_more {xs : List Expr} (h : ∀ x ∈ xs, ∃ text, Says x text) :
    ∃ text : List Char,
      (∀ i out, (Expr.writeAll (between ", ") (i + 1) out xs).toList = out.toList ++ text) ∧
      ∀ rest, Closed rest →
        Closed (text ++ rest) ∧ SpeltAs text (Expr.moreSpellings xs) rest := by
  induction xs with
  | nil => exact ⟨[], fun i out => by simp [Expr.writeAll], fun rest hrest => ⟨hrest, speltAs_nil⟩⟩
  | cons x xs ih =>
      rw [List.forall_mem_cons] at h
      obtain ⟨textX, hx⟩ := h.1
      obtain ⟨text, hwrite, hspelt⟩ := ih h.2
      refine ⟨',' :: ' ' :: (textX ++ text), fun i out => ?_, fun rest hrest => ⟨?_, ?_⟩⟩
      · rw [Expr.writeAll, hwrite, hx.write]
        simp [between]
      · exact closed_cons (by decide) _
      · obtain ⟨hclosed, hmore⟩ := hspelt rest hrest
        have hitem : SpeltAs (' ' :: (textX ++ text)) (x.spelling ++ Expr.moreSpellings xs) rest :=
          speltAs_blank.append ((hx.closed hclosed).append hmore)
        rw [Expr.moreSpellings]
        exact (speltAs_bracket (m := .comma) (by decide)).append hitem

/-- Several expressions with commas between them. -/
theorem exists_text_all {xs : List Expr} (h : ∀ x ∈ xs, ∃ text, Says x text) :
    ∃ text : List Char,
      (∀ out, (Expr.writeAll (between ", ") 0 out xs).toList = out.toList ++ text) ∧
      ∀ rest, Closed rest → SpeltAs text (Expr.spellings xs) rest := by
  cases xs with
  | nil => exact ⟨[], fun out => by simp [Expr.writeAll], fun rest _ => speltAs_nil⟩
  | cons x xs =>
      rw [List.forall_mem_cons] at h
      obtain ⟨textX, hx⟩ := h.1
      obtain ⟨text, hwrite, hspelt⟩ := exists_text_more h.2
      refine ⟨textX ++ text, fun out => ?_, fun rest hrest => ?_⟩
      · rw [Expr.writeAll, hwrite, hx.write]
        simp [between]
      · obtain ⟨hclosed, hmore⟩ := hspelt rest hrest
        exact (hx.closed hclosed).append hmore

theorem exists_says_indexList {span : Span} {is : List Expr} (hx : Says x text)
    (htight : 7 ≤ x.tightness) (his : ∀ i ∈ is, ∃ text, Says i text) :
    ∃ text, Says (.indexList span x is) text := by
  obtain ⟨texts, hwrite, hspelt⟩ := exists_text_all his
  refine ⟨text ++ '[' :: (texts ++ [']']), hx.operand htight
    (fun out => by simp [Expr.write, hwrite]) (by rw [Expr.spelling])
    (fun rest => mayFollow_closer (by decide) _) fun rest _ => ?_⟩
  exact speltAs_bracketed .lbrack .rbrack (by decide) (by decide)
    (hspelt _ (closed_cons (by decide) rest))

theorem exists_says_call {span : Span} {args : List Expr} (hx : Says x text)
    (htight : 7 ≤ x.tightness) (hargs : ∀ a ∈ args, ∃ text, Says a text) :
    ∃ text, Says (.call span x args none) text := by
  obtain ⟨texts, hwrite, hspelt⟩ := exists_text_all hargs
  refine ⟨text ++ '(' :: (texts ++ [')']), hx.operand htight
    (fun out => by simp [Expr.write, hwrite]) (by rw [Expr.spelling])
    (fun rest => mayFollow_closer (by decide) _) fun rest _ => ?_⟩
  exact speltAs_bracketed .lparen .rparen (by decide) (by decide)
    (hspelt _ (closed_cons (by decide) rest))

/-! ### Slices -/

/-- The first bound of a slice, which may be left out. -/
theorem exists_text_option {bound : Option Expr} (h : ∀ y ∈ bound, ∃ text, Says y text) :
    ∃ text : List Char,
      (∀ out, (Expr.writeOption out bound).toList = out.toList ++ text) ∧
      text.head? ≠ some '=' ∧
      ∀ rest, Closed rest → SpeltAs text (Expr.spellingOption bound) rest := by
  cases bound with
  | none => exact ⟨[], fun out => by simp [Expr.writeOption], by simp, fun rest _ => speltAs_nil⟩
  | some y =>
      obtain ⟨text, hy⟩ := h y rfl
      obtain ⟨c, cs, htext, hne, -⟩ := hy.head
      exact ⟨text, hy.write, by simpa [htext] using hne, fun rest hrest => hy.closed hrest⟩

/-- The other bounds of a slice with the colons in front of them. -/
theorem exists_text_bound {bound : Option Expr} (h : ∀ y ∈ bound, ∃ text, Says y text) :
    ∃ text : List Char,
      (∀ out, (Expr.writeOption (out ++ ":") bound).toList = out.toList ++ text) ∧
      ∀ rest, Closed rest → Closed (text ++ rest) ∧
        SpeltAs text (.mark .colon :: Expr.spellingOption bound) rest := by
  obtain ⟨text, hwrite, hhead, hspelt⟩ := exists_text_option h
  refine ⟨':' :: text, fun out => by simp [hwrite], fun rest hrest => ⟨?_, ?_⟩⟩
  · exact closed_cons (by decide) _
  · have hcolon : SpeltAs [':'] [.mark .colon] (text ++ rest) := by
      refine speltAs_mark (m := .colon) fun d hd => Mark.endsBefore_colon ?_
      rintro rfl
      cases text with
      | nil => exact absurd (hrest '=' hd) (by decide)
      | cons c cs => exact hhead hd
    exact hcolon.append (hspelt rest hrest)

theorem exists_says_slice {span : Span} {lo hi max : Option Expr} {full : Bool} (hx : Says x text)
    (htight : 7 ≤ x.tightness) (hlo : ∀ y ∈ lo, ∃ text, Says y text)
    (hhi : ∀ y ∈ hi, ∃ text, Says y text) (hmax : ∀ y ∈ max, ∃ text, Says y text) :
    ∃ text, Says (.slice span x lo hi max full) text := by
  obtain ⟨textLo, hwriteLo, -, hspeltLo⟩ := exists_text_option hlo
  obtain ⟨textHi, hwriteHi, hspeltHi⟩ := exists_text_bound hhi
  obtain ⟨textMax, hwriteMax, hspeltMax⟩ := exists_text_bound hmax
  obtain ⟨texts, htexts⟩ : ∃ texts, texts = textLo ++ (textHi ++ if full then textMax else []) :=
    ⟨_, rfl⟩
  refine ⟨text ++ '[' :: (texts ++ [']']), hx.operand htight (fun out => ?_)
    (by rw [Expr.spelling]) (fun rest => mayFollow_closer (by decide) _) fun rest _ => ?_⟩
  · cases full <;> simp [Expr.write, hwriteMax, hwriteHi, hwriteLo, htexts]
  · have hrest : Closed (']' :: rest) := closed_cons (by decide) rest
    have hupper : Closed ((textHi ++ if full then textMax else []) ++ ']' :: rest) ∧
        SpeltAs (textHi ++ if full then textMax else [])
          (.mark .colon :: (Expr.spellingOption hi ++
            if full then .mark .colon :: Expr.spellingOption max else [])) (']' :: rest) := by
      cases full with
      | false =>
          obtain ⟨hclosed, hspelt⟩ := hspeltHi _ hrest
          simpa using And.intro hclosed hspelt
      | true =>
          obtain ⟨hclosed, hspelt⟩ := hspeltMax _ hrest
          obtain ⟨hclosed', hspelt'⟩ := hspeltHi _ hclosed
          simpa using And.intro hclosed' (hspelt'.append hspelt)
    have hbounds := (hspeltLo _ hupper.1).append hupper.2
    rw [← htexts] at hbounds
    simpa [Mark.text] using speltAs_bracketed .lbrack .rbrack (by decide) (by decide) hbounds

/-! ### Type assertions and operators -/

theorem says_typeGuard {span : Span} (hx : Says x text) (htight : 7 ≤ x.tightness)
    (hnumber : x.isNumber = false) :
    Says (.typeAssert span x none) (text ++ ".(type)".toList) := by
  refine hx.operand htight (fun out => by simp [Expr.write]) (by rw [Expr.spelling])
    (fun rest => mayFollow_point htight hnumber _) fun rest _ => ?_
  have hdot : SpeltAs ['.'] [.mark .dot] ("(type)".toList ++ rest) :=
    speltAs_mark (m := .dot) fun d hd => dot_endsBefore (.inr (by simpa using hd.symm))
  have hword : SpeltAs "type".toList [.keyword .type_] (')' :: rest) :=
    speltAs_token (by simp) (cut_keyword .type_ fun d hd => by
      obtain rfl : ')' = d := by simpa using hd
      decide)
  exact hdot.append (speltAs_bracketed .lparen .rparen (by decide) (by decide) hword)

theorem says_typeAssert {span : Span} {t : Expr} {textT : List Char} (hx : Says x text)
    (htight : 7 ≤ x.tightness) (hnumber : x.isNumber = false) (ht : Says t textT) :
    Says (.typeAssert span x (some t)) (text ++ '.' :: '(' :: (textT ++ [')'])) := by
  refine hx.operand htight (fun out => by simp [Expr.write, ht.write]) (by rw [Expr.spelling])
    (fun rest => mayFollow_point htight hnumber _) fun rest _ => ?_
  have hdot : SpeltAs ['.'] [.mark .dot] ('(' :: (textT ++ [')']) ++ rest) :=
    speltAs_mark (m := .dot) fun d hd => dot_endsBefore (.inr (by simpa using hd.symm))
  exact hdot.append (speltAs_bracketed .lparen .rparen (by decide) (by decide)
    (ht.closed (closed_cons (by decide) rest)))

theorem says_unary {span opPos : Span} {op : UnaryOp} (hx : Says x text)
    (htight : 7 ≤ x.tightness) :
    Says (.unary span op opPos x) (op.text.toList ++ text) := by
  obtain ⟨c, cs, htext, -, hopens⟩ := hx.head
  constructor
  · intro out
    simp [Expr.write, hx.write]
  · have hstart : ∃ d ds, op.text.toList = d :: ds ∧ d ≠ '=' := by
      cases op <;> exact ⟨_, _, rfl, by decide⟩
    obtain ⟨d, ds, hop, hne⟩ := hstart
    exact ⟨d, ds ++ text, by rw [hop]; rfl, hne, fun h => absurd h (by simp [Expr.tightness])⟩
  · intro rest hrest
    have hclosed : Closed rest := by
      rcases hrest with hrest | ⟨-, h, -⟩
      · exact hrest
      · exact absurd h (by simp [Expr.tightness])
    have hop : SpeltAs op.text.toList [.mark op.mark] (text ++ rest) := by
      refine speltAs_mark fun d hd => endsBefore_operand op ?_
      obtain rfl : c = d := by simpa [htext] using hd
      exact hopens htight
    rw [Expr.spelling]
    exact hop.append (hx.closed hclosed)

/-- Between two operands there are blanks. -/
theorem says_binary {span opPos : Span} {op : BinaryOp} {textY : List Char} (hx : Says x text)
    (hy : Says y textY) (hwords : op.words = op.text) :
    Says (.binary span x op opPos y) (text ++ ' ' :: (op.text.toList ++ ' ' :: textY)) := by
  obtain ⟨c, cs, htext, hne, -⟩ := hx.head
  have htight : (Expr.binary span x op opPos y).tightness < 7 := by
    have := op.precedence_lt
    simp only [Expr.tightness]
    omega
  constructor
  · intro out
    simp [Expr.write, hx.write, hy.write, hwords]
  · exact ⟨c, _, by rw [htext]; rfl, hne, fun h => absurd h (by omega)⟩
  · intro rest hrest
    have hclosed : Closed rest := by
      rcases hrest with hrest | ⟨-, h, -⟩
      · exact hrest
      · exact absurd h (by omega)
    have hop : SpeltAs op.text.toList [.mark op.mark] (' ' :: textY ++ rest) := by
      refine speltAs_mark fun d hd => ?_
      obtain rfl : ' ' = d := by simpa using hd
      exact endsBefore_blank _
    rw [Expr.spelling]
    exact (hx.closed (closed_cons (by decide) _)).append
      (speltAs_blank.append (hop.append (speltAs_blank.append (hy.closed hclosed))))

end Says

end GoGloss
