import Mathlib.Data.List.Basic
import GoGloss.Lexer
import GoGloss.Proofs.Lossless

/-!
# Runs of a lexer

A lexer is used by two calls in any order: one asks for the next lexeme, the
other collects the complaints. Whatever the order, the lexer is always somewhere
on its way through the lexemes of its source: what it has handed out and what it
still has to hand out are together those lexemes, and what has been collected and
what waits to be collected are together the complaints about the former.
-/

namespace GoGloss

/-- The complaint about an illegal lexeme, with the place where the lexeme stands. -/
def Lexeme.complaint? (l : Lexeme) : Option Diagnostic :=
  match l.token with
  | .illegal flaw => some ⟨.lexing, ⟨l.start, l.stop⟩, flaw.message⟩
  | _ => none

/-- In a source that is small enough no place of a complaint is clamped. -/
theorem Lexeme.diagnostic?_eq {src : String} (hsmall : src.utf8ByteSize ≤ Span.maxOffset)
    {l : Lexeme} (hl : l ∈ tokenize src) : l.diagnostic? = l.complaint? := by
  obtain ⟨-, hstart, hstop⟩ := ((layout_tokenize src).liesIn l hl).bounds
  rw [Nat.zero_add, byteSize_toList] at hstop
  have hspan : l.span = ⟨l.start, l.stop⟩ := by
    simp only [Lexeme.span, Span.of, Span.mk.injEq]
    omega
  rw [Lexeme.diagnostic?, Lexeme.complaint?, ← hspan]
  rfl

namespace Lexer

/-- The lexemes a lexer has still to hand out. -/
def ahead (lx : Lexer) : List Lexeme :=
  Lexeme.ofPieces lx.armed lx.offset lx.pieces

/-- The lexeme found is the first of those there are, and the others are still there. -/
theorem ofPieces_advance (armed : Bool) (offset : Nat) (ps : List Piece) :
    let (lexeme?, ps', offset', armed') := advance armed offset ps
    Lexeme.ofPieces armed offset ps = lexeme?.toList ++ Lexeme.ofPieces armed' offset' ps' ∧
      (lexeme? = none → Lexeme.ofPieces armed' offset' ps' = []) := by
  induction ps generalizing offset with
  | nil => cases armed <;> simp [Lexeme.ofPieces, advance]
  | cons p ps ih =>
    simp only [Lexeme.ofPieces, advance]
    cases p.token? offset with
    | some token => simp
    | none =>
      -- only an armed lexer stops at a line break; otherwise the piece is passed over
      cases armed with
      | false => exact ih _
      | true =>
        cases lineBreak? offset p.text with
        | some place => simp
        | none => exact ih _

theorem ahead_next (lx : Lexer) :
    lx.ahead = lx.next.1.toList ++ lx.next.2.ahead ∧
      (lx.next.1 = none → lx.next.2.ahead = []) :=
  ofPieces_advance lx.armed lx.offset lx.pieces

/-- The lexeme handed out is the first of those ahead. -/
theorem next_eq_head? (lx : Lexer) : lx.next.1 = lx.ahead.head? := by
  obtain ⟨hahead, hnone⟩ := lx.ahead_next
  cases hnext : lx.next.1 with
  | none => rw [hahead, hnone hnext, hnext, Option.toList_none, List.nil_append, List.head?_nil]
  | some l => rw [hahead, hnext, Option.toList_some, List.cons_append, List.head?_cons]

theorem ahead_next_eq_tail (lx : Lexer) : lx.next.2.ahead = lx.ahead.tail := by
  obtain ⟨hahead, hnone⟩ := lx.ahead_next
  cases hnext : lx.next.1 with
  | none => rw [hahead, hnone hnext, hnext, Option.toList_none, List.nil_append, List.tail_nil]
  | some l => rw [hahead, hnext, Option.toList_some, List.cons_append, List.tail_cons,
      List.nil_append]

/-! ## Calls -/

/-- A use of a lexer. -/
inductive Call where
  /-- Asks for the next lexeme. -/
  | next
  /-- Collects the complaints. -/
  | collect
deriving DecidableEq, Repr

/-- A lexer after some calls, with all they brought. -/
structure Run where
  lexer : Lexer
  /-- The answers to the calls for the next lexeme, oldest first. -/
  answers : List (Option Lexeme)
  /-- The complaints collected so far, oldest first. -/
  collected : List Diagnostic

namespace Run

/-- A lexer that has not been used yet. -/
def start (src : String) : Run :=
  ⟨ofSource src, [], []⟩

/-- One more call. -/
def call (r : Run) : Call → Run
  | .next =>
    let (lexeme?, lexer) := r.lexer.next
    ⟨lexer, r.answers ++ [lexeme?], r.collected⟩
  | .collect =>
    let (complaints, lexer) := r.lexer.collect
    ⟨lexer, r.answers, r.collected ++ complaints⟩

/-- A lexer of a source after some calls. -/
def after (src : String) (calls : List Call) : Run :=
  calls.foldl call (start src)

/-- The lexemes handed out so far. -/
def lexemes (r : Run) : List Lexeme :=
  r.answers.filterMap id

/-- A run on its way through the lexemes `ls`. -/
structure OnWay (ls : List Lexeme) (r : Run) : Prop where
  ahead : r.lexer.ahead = ls.drop r.answers.length
  answers : r.answers = (List.range r.answers.length).map (ls[·]?)
  complaints : r.collected ++ r.lexer.complaints = lexicalDiagnostics r.lexemes

theorem onWay_start (src : String) : (start src).OnWay (tokenize src) where
  ahead := rfl
  answers := rfl
  complaints := rfl

/-- No call leaves the way. -/
theorem OnWay.call {ls : List Lexeme} {r : Run} (h : r.OnWay ls) (c : Call) :
    (r.call c).OnWay ls := by
  cases c with
  | collect =>
    refine ⟨h.ahead, h.answers, ?_⟩
    simpa [Run.call, Lexer.collect, lexemes] using h.complaints
  | next =>
    have hanswer : r.lexer.next.1 = ls[r.answers.length]? := by
      rw [next_eq_head?, h.ahead, List.head?_drop]
    refine ⟨?_, ?_, ?_⟩
    · simp only [Run.call, ahead_next_eq_tail, h.ahead, List.tail_drop, List.length_append,
        List.length_singleton]
    · simp only [Run.call, List.length_append, List.length_singleton, List.range_succ,
        List.map_append, List.map_singleton, ← h.answers, hanswer]
    · have hnew : r.lexer.next.2.complaints =
          r.lexer.complaints ++ (r.lexer.next.1.bind Lexeme.diagnostic?).toList := rfl
      simp only [Run.call, hnew, ← List.append_assoc, h.complaints]
      cases r.lexer.next.1 with
      | none => simp [lexemes]
      | some l => cases hl : l.diagnostic? <;> simp [lexemes, lexicalDiagnostics, hl]

theorem onWay_after (src : String) (calls : List Call) :
    (after src calls).OnWay (tokenize src) := by
  suffices ∀ r : Run, r.OnWay (tokenize src) → (calls.foldl Run.call r).OnWay (tokenize src) from
    this _ (onWay_start src)
  induction calls with
  | nil => exact fun _ h => h
  | cons c calls ih => exact fun r h => ih (r.call c) (h.call c)

/-- The answers are the lexemes in turn, and nothing once they are all handed out. -/
theorem OnWay.lexemes_eq {ls : List Lexeme} {r : Run} (h : r.OnWay ls) :
    r.lexemes = ls.take r.answers.length := by
  rw [lexemes, h.answers, List.filterMap_map, Function.id_comp, List.length_map, List.length_range]
  induction r.answers.length with
  | zero => rfl
  | succ n ih =>
    rw [List.range_succ, List.filterMap_append, ih, List.take_add_one]
    cases hn : ls[n]? <;> simp [hn]

section End

variable {ls : List Lexeme} {r : Run} (h : r.OnWay ls) (hnone : none ∈ r.answers)
include h hnone

theorem OnWay.length_le : ls.length ≤ r.answers.length := by
  rw [h.answers] at hnone
  obtain ⟨n, hn, hlen⟩ := List.mem_map.mp hnone
  rw [List.mem_range] at hn
  exact Nat.le_trans (List.getElem?_eq_none_iff.mp hlen) (Nat.le_of_lt hn)

theorem OnWay.lexemes_eq_all : r.lexemes = ls := by
  rw [h.lexemes_eq, List.take_of_length_le (h.length_le hnone)]

theorem OnWay.next_eq_none : r.lexer.next.1 = none := by
  rw [next_eq_head?, h.ahead, List.drop_of_length_le (h.length_le hnone), List.head?_nil]

/-- After the end every call for a lexeme is answered by nothing. -/
theorem OnWay.answers_foldl (later : List Call) :
    ∃ n, (later.foldl Run.call r).answers = r.answers ++ List.replicate n none := by
  induction later generalizing r with
  | nil => exact ⟨0, by simp⟩
  | cons c later ih =>
    cases c with
    | collect => exact ih (h.call .collect) hnone
    | next =>
      obtain ⟨n, hn⟩ := ih (h.call .next) (List.mem_append_left _ hnone)
      refine ⟨n + 1, hn.trans ?_⟩
      simp only [Run.call, h.next_eq_none hnone, List.append_assoc, List.replicate_succ,
        List.singleton_append]

end End

end Run

/--
Runs of a lexer are consistent, whatever the order of calls. The answers are the
lexemes of the source in turn and then nothing for ever, so the lexemes handed out
are a prefix, and all of them once nothing was answered. What was collected and
what waits are together, in order, one complaint for each illegal lexeme handed
out, which stands where the lexeme does if no offset of the source needs more than
32 bits. Once nothing was answered, all that is collected is the complaints about
the whole source.
-/
theorem after_consistent (src : String) (calls later : List Call) :
    let r := Run.after src calls
    r.answers = (List.range r.answers.length).map ((tokenize src)[·]?) ∧
      r.lexemes <+: tokenize src ∧
      r.collected ++ r.lexer.complaints = lexicalDiagnostics r.lexemes ∧
      (src.utf8ByteSize ≤ Span.maxOffset →
        r.collected ++ r.lexer.complaints = r.lexemes.filterMap Lexeme.complaint?) ∧
      (none ∈ r.answers →
        r.lexemes = tokenize src ∧
        (∃ n, (Run.after src (calls ++ later)).answers = r.answers ++ List.replicate n none) ∧
        (r.call .collect).collected = lexicalDiagnostics (tokenize src)) := by
  intro r
  have hway : r.OnWay (tokenize src) := Run.onWay_after src calls
  have hlexemes : r.lexemes <+: tokenize src := hway.lexemes_eq ▸ List.take_prefix ..
  refine ⟨hway.answers, hlexemes, hway.complaints, fun hsmall => ?_, fun hnone => ?_⟩
  · rw [hway.complaints]
    exact List.filterMap_congr fun l hl => l.diagnostic?_eq hsmall (hlexemes.mem hl)
  · have hall : r.lexemes = tokenize src := hway.lexemes_eq_all hnone
    refine ⟨hall, ?_, hall ▸ hway.complaints⟩
    rw [Run.after, List.foldl_append]
    exact hway.answers_foldl hnone later

theorem after_consistent_stray :
    "#;".utf8ByteSize ≤ Span.maxOffset ∧
      none ∈ (Run.after "#;" [.next, .collect, .next, .next]).answers ∧
      (Run.after "#;" [.next, .collect, .next, .next]).collected ++
          (Run.after "#;" [.next, .collect, .next, .next]).lexer.complaints =
        (Run.after "#;" [.next, .collect, .next, .next]).lexemes.filterMap Lexeme.complaint? ∧
      ((Run.after "#;" [.next, .collect, .next, .next]).call .collect).collected =
        lexicalDiagnostics (tokenize "#;") := by
  have hsmall : "#;".utf8ByteSize ≤ Span.maxOffset := by decide
  have hnone : none ∈ (Run.after "#;" [.next, .collect, .next, .next]).answers := by decide +kernel
  obtain ⟨-, -, -, hplaces, hend⟩ := after_consistent "#;" [.next, .collect, .next, .next] []
  exact ⟨hsmall, hnone, hplaces hsmall, (hend hnone).2.2⟩

end Lexer

end GoGloss
