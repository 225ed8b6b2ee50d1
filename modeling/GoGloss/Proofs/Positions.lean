import GoGloss.Position
import GoGloss.Proofs.Bytes
import Mathlib.Data.Prod.Lex
import Mathlib.Order.Interval.Set.Defs
import Mathlib.Tactic.SplitIfs

/-!
# Positions identify offsets

`locate` walks over characters. Told by bytes, each byte of a character moves on by
one column and a line feed to the next line: no other character has the byte of a
line feed in it. So a position is what a walk over the first bytes of the source
ends at, wherever it ends, inside a character too.

Every byte leads to a later position, by line and then by column. Hence no two
offsets of a source share a position, and the order of the positions is that of the
offsets. Back from a position to its offset leads the size of the lines above it.
-/

namespace GoGloss

/-- The byte that ends a line. -/
def lineFeed : UInt8 := 10

/-- The source as it is stored: the bytes of its characters in a row. -/
def sourceBytes (src : String) : List UInt8 :=
  src.toUTF8.data.toList

/-- The number of bytes in the first `n` lines, with the line feed at the end of each. -/
def bytesOfLines (n : Nat) (bytes : List UInt8) : Nat :=
  (((bytes.splitOn lineFeed).take n).flatMap (· ++ [lineFeed])).length

theorem sourceBytes_eq (src : String) :
    sourceBytes src = src.toList.flatMap String.utf8EncodeChar := by
  rw [sourceBytes, String.toUTF8, ← String.utf8Encode_toList, List.utf8Encode,
    List.data_toByteArray]

theorem length_sourceBytes (src : String) : (sourceBytes src).length = src.utf8ByteSize := rfl

@[simp]
theorem bytesOfLines_zero (bytes : List UInt8) : bytesOfLines 0 bytes = 0 := rfl

theorem bytesOfLines_cons_lineFeed (n : Nat) (bytes : List UInt8) :
    bytesOfLines (n + 1) (lineFeed :: bytes) = bytesOfLines n bytes + 1 := by
  simp [bytesOfLines, List.splitOn_cons_eq_if_modifyHead]

theorem bytesOfLines_cons_of_ne {b : UInt8} (hb : b ≠ lineFeed) (n : Nat) (bytes : List UInt8) :
    bytesOfLines (n + 1) (b :: bytes) = bytesOfLines (n + 1) bytes + 1 := by
  obtain ⟨line, lines, hlines⟩ := List.exists_cons_of_ne_nil (List.splitOn_ne_nil lineFeed bytes)
  simp only [bytesOfLines, List.splitOn_cons_eq_if_modifyHead, beq_iff_eq, hb, if_false, hlines,
    List.modifyHead_cons, List.take_succ_cons, List.flatMap_cons, List.length_append,
    List.length_cons]
  omega

/-- A character that has a line feed among its bytes is one. -/
theorem eq_newline_of_mem_utf8EncodeChar {c : Char} (h : lineFeed ∈ String.utf8EncodeChar c) :
    c = '\n' := by
  have hbyte : ∀ n : Nat, lineFeed = UInt8.ofNat n ↔ n % 256 = 10 := by
    intro n
    rw [← UInt8.toNat_inj, UInt8.toNat_ofNat', lineFeed]
    exact eq_comm
  suffices hval : c.val.toNat = 10 from Char.ext (UInt32.toNat.inj hval)
  rw [String.utf8EncodeChar] at h
  -- in more than one byte, each is 128 or more
  split_ifs at h <;>
    simp only [List.mem_cons, List.not_mem_nil, or_false, hbyte] at h <;> omega

namespace Position

/-! ## A walk over bytes -/

/-- The position right after `b` when `b` stands at `p`. -/
def afterByte (p : Position) (b : UInt8) : Position :=
  if b = lineFeed then ⟨p.line + 1, 1⟩ else ⟨p.line, p.column + 1⟩

/-- The position right after some bytes, of which the first stands at `p`. -/
def afterBytes (p : Position) (bytes : List UInt8) : Position :=
  bytes.foldl afterByte p

/-- A position by its line, and within the line by its column. -/
def key (p : Position) : ℕ ×ₗ ℕ :=
  toLex (p.line, p.column)

variable (p : Position) (bytes more : List UInt8)

@[simp]
theorem afterBytes_nil : p.afterBytes [] = p := rfl

@[simp]
theorem afterBytes_cons (b : UInt8) :
    p.afterBytes (b :: bytes) = (p.afterByte b).afterBytes bytes := rfl

theorem afterBytes_append : p.afterBytes (bytes ++ more) = (p.afterBytes bytes).afterBytes more :=
  List.foldl_append

theorem afterByte_of_ne {b : UInt8} (hb : b ≠ lineFeed) : p.afterByte b = ⟨p.line, p.column + 1⟩ :=
  if_neg hb

/-- Within a line only the column moves. -/
theorem afterBytes_of_notMem (h : lineFeed ∉ bytes) :
    p.afterBytes bytes = ⟨p.line, p.column + bytes.length⟩ := by
  induction bytes generalizing p with
  | nil => rfl
  | cons b bytes ih =>
      obtain ⟨hb, hbytes⟩ := not_or.mp (List.mem_cons.not.mp h)
      rw [afterBytes_cons, afterByte_of_ne p (Ne.symm hb), ih _ hbytes, List.length_cons]
      simp only [mk.injEq, true_and]
      omega

/-- A whole character leads where its bytes lead. -/
theorem afterBytes_utf8EncodeChar (c : Char) :
    p.afterBytes (String.utf8EncodeChar c) = p.after c := by
  by_cases hc : c = '\n'
  · subst hc
    rfl
  · rw [afterBytes_of_notMem p _ fun h => hc (eq_newline_of_mem_utf8EncodeChar h),
      String.length_utf8EncodeChar, after, if_neg hc]

/-- Walking over characters is walking over their bytes, also when it ends inside a character. -/
theorem advance_eq_afterBytes (offset : Nat) (cs : List Char) :
    p.advance offset cs = p.afterBytes ((cs.flatMap String.utf8EncodeChar).take offset) := by
  induction cs generalizing p offset with
  | nil => simp [advance]
  | cons c cs ih =>
      have hlength := String.length_utf8EncodeChar c
      rw [advance, List.flatMap_cons, List.take_append, hlength]
      split
      · rename_i hle
        have hwhole : (String.utf8EncodeChar c).take offset = String.utf8EncodeChar c :=
          List.take_of_length_le (by omega)
        rw [ih, afterBytes_append, hwhole, afterBytes_utf8EncodeChar]
      · rename_i hlt
        rw [show offset - c.utf8Size = 0 by omega, List.take_zero, List.append_nil,
          afterBytes_of_notMem, List.length_take, hlength, Nat.min_eq_left (by omega)]
        intro hmem
        -- a line feed has one byte, so no offset lies inside it
        have hnewline := eq_newline_of_mem_utf8EncodeChar (List.mem_of_mem_take hmem)
        subst hnewline
        have hzero : offset = 0 := by
          have : '\n'.utf8Size = 1 := rfl
          omega
        simp [hzero] at hmem

theorem locate_eq_afterBytes (src : String) (offset : Nat) :
    locate src offset = first.afterBytes ((sourceBytes src).take offset) := by
  rw [locate, advance_eq_afterBytes, sourceBytes_eq]

/-! ## Lines and columns -/

theorem line_afterBytes : (p.afterBytes bytes).line = p.line + bytes.count lineFeed := by
  induction bytes generalizing p with
  | nil => rfl
  | cons b bytes ih =>
      rw [afterBytes_cons, ih, List.count_cons, afterByte]
      split <;> simp_all
      omega

theorem one_le_column_afterBytes (hp : 1 ≤ p.column) : 1 ≤ (p.afterBytes bytes).column := by
  induction bytes generalizing p with
  | nil => exact hp
  | cons b bytes ih =>
      rw [afterBytes_cons]
      apply ih
      rw [afterByte]
      split
      · exact Nat.le_refl 1
      · exact Nat.le_succ_of_le hp

/--
The lines above a position and its column give back the offset. Until the first line
feed the column goes on from where the walk started; from then on it starts at one.
-/
theorem bytesOfLines_add_column (offset : Nat) (h : offset ≤ bytes.length) :
    bytesOfLines ((bytes.take offset).count lineFeed) bytes +
        (p.afterBytes (bytes.take offset)).column =
      offset + if (bytes.take offset).count lineFeed = 0 then p.column else 1 := by
  induction bytes generalizing p offset with
  | nil =>
      obtain rfl : offset = 0 := Nat.le_zero.mp h
      simp
  | cons b bytes ih =>
      cases offset with
      | zero => simp
      | succ offset =>
          have hoffset : offset ≤ bytes.length := Nat.le_of_succ_le_succ h
          rw [List.take_succ_cons, afterBytes_cons]
          by_cases hb : b = lineFeed
          · subst hb
            have hstep := ih ⟨p.line + 1, 1⟩ offset hoffset
            simp only [ite_self] at hstep
            rw [List.count_cons_self, bytesOfLines_cons_lineFeed, afterByte, if_pos rfl,
              if_neg (Nat.succ_ne_zero _)]
            omega
          · have hstep := ih ⟨p.line, p.column + 1⟩ offset hoffset
            rw [List.count_cons_of_ne hb, afterByte_of_ne p hb]
            cases hcount : (bytes.take offset).count lineFeed with
            | zero =>
                simp only [hcount, bytesOfLines_zero, if_true] at hstep ⊢
                omega
            | succ n =>
                simp only [hcount, Nat.succ_ne_zero, if_false] at hstep ⊢
                rw [bytesOfLines_cons_of_ne hb]
                omega

/-! ## The order of positions -/

/-- One byte leads to a later position. -/
theorem key_lt_afterByte (b : UInt8) : p.key < (p.afterByte b).key := by
  rw [key, key, Prod.Lex.toLex_lt_toLex, afterByte]
  split
  · exact .inl (Nat.lt_succ_self _)
  · exact .inr ⟨rfl, Nat.lt_succ_self _⟩

theorem key_le_afterBytes : p.key ≤ (p.afterBytes bytes).key := by
  induction bytes generalizing p with
  | nil => exact le_rfl
  | cons b bytes ih => exact (p.key_lt_afterByte b).le.trans (ih _)

theorem key_lt_afterBytes (h : bytes ≠ []) : p.key < (p.afterBytes bytes).key := by
  cases bytes with
  | nil => exact absurd rfl h
  | cons b bytes => exact (p.key_lt_afterByte b).trans_le (key_le_afterBytes _ bytes)

theorem strictMonoOn_key_locate (src : String) :
    StrictMonoOn (fun offset => (locate src offset).key) (Set.Iic src.utf8ByteSize) := by
  intro o _ o' ho' hlt
  have hsplit : (sourceBytes src).take o' =
      (sourceBytes src).take o ++ ((sourceBytes src).drop o).take (o' - o) := by
    rw [← List.take_add, Nat.add_sub_cancel' hlt.le]
  have hbetween : ((sourceBytes src).drop o).take (o' - o) ≠ [] := by
    rw [← List.length_pos_iff, List.length_take, List.length_drop, length_sourceBytes]
    have : o' ≤ src.utf8ByteSize := ho'
    omega
  simp only [locate_eq_afterBytes, hsplit, afterBytes_append]
  exact key_lt_afterBytes _ _ hbetween

/--
**Positions identify offsets.** The line of an offset is one more than the number of
line feeds before it, and the offset is the size of the lines above, with their line
feeds, and one less than the column. Both numbers fit in 32 bits in a source that is
short enough. So no two offsets up to the end of the source have the same position,
later ones have later positions, and past the end the position is that of the end.
-/
theorem locate_identifies (src : String) (hsize : src.utf8ByteSize < Span.maxOffset) :
    (∀ offset ≤ src.utf8ByteSize,
      (locate src offset).line = ((sourceBytes src).take offset).count lineFeed + 1 ∧
      1 ≤ (locate src offset).column ∧
      offset = bytesOfLines ((locate src offset).line - 1) (sourceBytes src) +
        ((locate src offset).column - 1) ∧
      (locate src offset).line ≤ Span.maxOffset ∧
      (locate src offset).column ≤ Span.maxOffset) ∧
    Set.InjOn (locate src) (Set.Iic src.utf8ByteSize) ∧
    StrictMonoOn (fun offset => (locate src offset).key) (Set.Iic src.utf8ByteSize) ∧
    ∀ offset > src.utf8ByteSize, locate src offset = locate src src.utf8ByteSize := by
  have hmono := strictMonoOn_key_locate src
  refine ⟨fun offset hoffset => ?_, ?_, hmono, fun offset hoffset => ?_⟩
  · have hline : (locate src offset).line = ((sourceBytes src).take offset).count lineFeed + 1 := by
      rw [locate_eq_afterBytes, line_afterBytes, Nat.add_comm]
      rfl
    have hcolumn : 1 ≤ (locate src offset).column := by
      rw [locate_eq_afterBytes]
      exact one_le_column_afterBytes _ _ (Nat.le_refl 1)
    have hback : bytesOfLines ((locate src offset).line - 1) (sourceBytes src) +
        (locate src offset).column = offset + 1 := by
      have h := bytesOfLines_add_column first (sourceBytes src) offset hoffset
      rw [show first.column = 1 from rfl, ite_self, ← locate_eq_afterBytes] at h
      rwa [hline, Nat.add_sub_cancel]
    have hcount : ((sourceBytes src).take offset).count lineFeed ≤ offset :=
      List.count_le_length.trans (List.length_take_le _ _)
    exact ⟨hline, hcolumn, by omega, by omega, by omega⟩
  · intro o ho o' ho' heq
    exact hmono.injOn ho ho' (congrArg key heq)
  · have hall : ∀ n ≥ src.utf8ByteSize, (sourceBytes src).take n = sourceBytes src :=
      fun n hn => List.take_of_length_le hn
    rw [locate_eq_afterBytes, locate_eq_afterBytes, hall _ hoffset.le, hall _ le_rfl]

/-- An offset inside a character, one line down, and one past the end. -/
theorem locate_identifies_inside_character :
    locate "é\n→x" 4 = ⟨2, 2⟩ ∧
    2 = ((sourceBytes "é\n→x").take 4).count lineFeed + 1 ∧
    4 = bytesOfLines 1 (sourceBytes "é\n→x") + 1 ∧
    locate "é\n→x" 3 ≠ locate "é\n→x" 4 ∧
    (locate "é\n→x" 2).key < (locate "é\n→x" 3).key ∧
    locate "é\n→x" 100 = locate "é\n→x" 7 := by
  have hend : "é\n→x".utf8ByteSize = 7 := by decide
  have hposition : locate "é\n→x" 4 = ⟨2, 2⟩ := by decide +kernel
  obtain ⟨hoffset, hinjective, hmono, hpast⟩ := locate_identifies "é\n→x" (by decide)
  obtain ⟨hline, -, hback, -⟩ := hoffset 4 (by decide)
  rw [hposition] at hline hback
  rw [hend] at hinjective hmono hpast
  refine ⟨hposition, hline, hback, fun heq => ?_, ?_, hpast 100 (by decide)⟩
  · exact absurd (hinjective (Set.mem_Iic.mpr (by decide)) (Set.mem_Iic.mpr (by decide)) heq)
      (by decide)
  · exact hmono (Set.mem_Iic.mpr (by decide)) (Set.mem_Iic.mpr (by decide)) (by decide)

end Position

end GoGloss
