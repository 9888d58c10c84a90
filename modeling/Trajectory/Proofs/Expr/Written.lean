import Trajectory.Expr.Printer
import Trajectory.Proofs.Decimal.WrittenNumber
import Trajectory.Proofs.Expr.Normal
import Trajectory.Proofs.Expr.Reading

namespace Trajectory

open Binary64 (signBit)
open Grammar

namespace Mark

def ofOp : BinaryOp → Mark
  | .add => plus
  | .sub => minus
  | .mul => times
  | .div => slash
  | .power => caret

theorem char_ofOp (op : BinaryOp) : (ofOp op).char = op.symbol := by cases op <;> rfl

end Mark

theorem Func.name_mem_spellings (f : Func) : (f.name, f) ∈ Func.spellings := by cases f <;> decide

theorem Func.isIdentifier_name (f : Func) : Text.isIdentifier f.name.toList = true := by
  cases f <;> decide

namespace Expr

section Numerals

variable {α : Type} [Numeral α]

theorem writeBefore_eq (rest : List Char) (e : Expr α) : e.writeBefore rest = e.written ++ rest := by
  unfold written
  induction e generalizing rest with
  | var name => simp [writeBefore]
  | const c => simp [writeBefore]
  | binary op left right ihl ihr =>
    rw [writeBefore, ihl, ihr, writeBefore, ihl (' ' :: _), ihr [')']]
    simp
  | apply f argument ih =>
    rw [writeBefore, ih, writeBefore, ih [')']]
    simp

theorem written_binary (op : BinaryOp) (left right : Expr α) : (binary op left right).written =
    '(' :: (left.written ++ ' ' :: op.symbol :: ' ' :: right.written) ++ [')'] := by
  rw [written, writeBefore, writeBefore_eq, writeBefore_eq]
  simp

theorem written_apply (f : Func) (argument : Expr α) :
    (apply f argument).written = f.name.toList ++ ('(' :: argument.written ++ [')']) := by
  rw [written, writeBefore, writeBefore_eq]
  simp

theorem spells_binary {op : BinaryOp} {left right : Expr α} {ts us : List Token}
    (hl : Spells ts left.written) (hr : Spells us right.written) :
    Spells (.mark .opening :: (ts ++ .mark (.ofOp op) :: us) ++ [.mark .closing])
      (binary op left right).written := by
  have hblank : Text.isBlankText [' '] = true := by decide
  have hmark := (hr.blank_append hblank).mark (.ofOp op)
  have hinner := (hl.append_blank hblank).append hmark
  rw [Mark.char_ofOp] at hinner
  rw [written_binary]
  simpa using hinner.bracketed

theorem spells_apply {f : Func} {argument : Expr α} {ts : List Token}
    (h : Spells ts argument.written) :
    Spells (.name f.name.toList f.isIdentifier_name :: .mark .opening :: ts ++ [.mark .closing])
      (apply f argument).written := by
  rw [written_apply]
  exact .name (b := []) f.isIdentifier_name rfl h.bracketed

end Numerals

/-- The words of a written expression. A number with a minus is the only one that needs brackets to
stand as an operand everywhere. -/
inductive Words : Expr Float → List Token → Prop
  | atom {e : Expr Float} {ts : List Token} (hplain : ∀ c, e = const c → signBit c = false)
      (h : Derives .atom ts e.normal) : Words e ts
  | signed {c : Float} {digits : List Char} {proper : Decimal.NumberText digits}
      (hsign : signBit c = true) (hc : - -c = c)
      (hv : Scalar.ofDecimalText? digits = some (-c)) :
      Words (const c) [.mark .minus, .number digits proper]

namespace Words

variable {e left right : Expr Float} {op : BinaryOp} {ts us : List Token}

theorem unary (h : Words e ts) : Derives .unary ts e.normal := by
  cases h with
  | atom _ h => exact .power (.atom h)
  | @signed c digits proper _ hc hv =>
    have hnumber : Derives .unary [.number digits proper] (const (-c)) := .power (.atom (.number hv))
    have hnegated : Negated (const (-c)) (const c) := negated_iff.mpr (congrArg const hc.symm)
    exact .negative hnumber hnegated

theorem sum (h : Words e ts) : Derives .sum ts e.normal := .product (.unary h.unary)

theorem normal_of_ne (hop : op ≠ .power) (left right : Expr Float) :
    (binary op left right).normal = binary op left.normal right.normal :=
  normal_plain (fun h => hop h.1) right

theorem power (hl : Words left ts) (hr : Words right us) :
    Derives .sum (ts ++ .mark .caret :: us) (binary .power left right).normal := by
  cases hl with
  | atom hplain hl =>
    have hbase : ¬ SignedBase .power left := by
      rintro ⟨_, c, hleft, hc⟩
      rw [hplain c hleft] at hc
      cases hc
    rw [normal_plain hbase]
    exact .product (.unary (.power (.raised hl hr.unary)))
  | @signed c digits proper hsign _ hv =>
    -- The minus is read last, when the power after it is a tree already.
    have hbase : Derives .atom [.number digits proper] (const (-c)) := .number hv
    rw [normal_signed hsign]
    exact .product (.unary (.negative (.power (.raised hbase hr.unary)) (.product (by simp))))

theorem operands (op : BinaryOp) (hl : Words left ts) (hr : Words right us) :
    Derives .sum (ts ++ .mark (.ofOp op) :: us) (binary op left right).normal := by
  cases op with
  | add =>
    rw [normal_of_ne (by simp)]
    exact .sum rfl hl.sum (.unary hr.unary)
  | sub =>
    rw [normal_of_ne (by simp)]
    exact .sum rfl hl.sum (.unary hr.unary)
  | mul =>
    rw [normal_of_ne (by simp)]
    exact .product (.factor rfl (.unary hl.unary) hr.unary)
  | div =>
    rw [normal_of_ne (by simp)]
    exact .product (.factor rfl (.unary hl.unary) hr.unary)
  | power => exact hl.power hr

end Words

/-- The names and numbers of an expression can be told from everything else, and the numbers are read
back from their digits. -/
structure Legible (e : Expr Float) : Prop where
  names : ∀ n, .var n ∈ e.nodes → Text.isIdentifier n.toList = true ∧ n ≠ "pi"
  finite : ∀ c, .const c ∈ e.nodes → c.isFinite = true
  numbers : ∀ c, .const c ∈ e.nodes → Scalar.ofDecimalText? (text c.abs).toList = some c.abs

theorem Legible.of_nodes {e f : Expr Float} (h : Legible e) (hf : ∀ g ∈ f.nodes, g ∈ e.nodes) :
    Legible f :=
  ⟨fun n hn => h.names n (hf _ hn), fun c hc => h.finite c (hf _ hc),
    fun c hc => h.numbers c (hf _ hc)⟩

theorem words_const {c : Float} (hfinite : c.isFinite = true)
    (hnumber : Scalar.ofDecimalText? (text c.abs).toList = some c.abs) :
    ∃ ts, Spells ts (const c).written ∧ Words (const c) ts := by
  obtain ⟨digits, proper, htext, hneg⟩ := Binary64.exists_digits hfinite
  have hwritten : (const c).written = (text c).toList := by simp [written, writeBefore]
  rw [Binary64.abs_eq hfinite] at hnumber
  rw [hwritten, htext]
  cases hsign : signBit c with
  | true =>
    rw [hsign, if_pos rfl] at hnumber hneg
    rw [hneg] at hnumber
    refine ⟨[.mark .minus, .number digits proper], ?_, .signed hsign (Binary64.neg_neg hfinite) hnumber⟩
    exact (Spells.singleton (.number digits proper)).mark .minus
  | false =>
    simp only [hsign, Bool.false_eq_true, if_false] at hnumber htext
    rw [htext] at hnumber
    refine ⟨[.number digits proper], .singleton (.number digits proper), .atom ?_ (.number hnumber)⟩
    rintro d ⟨⟩
    exact hsign

theorem exists_words {e : Expr Float} (h : Legible e) : ∃ ts, Spells ts e.written ∧ Words e ts := by
  induction e with
  | var n =>
    obtain ⟨hn, hpi⟩ := h.names n (mem_nodes _)
    have hwritten : (var n : Expr Float).written = n.toList := by simp [written, writeBefore]
    have hnamed : Named n.toList (var n : Expr Float) := by
      have hne : n.toList ≠ ['p', 'i'] := fun heq => hpi (String.toList_inj.mp heq)
      simpa using Named.var (α := Float) hne
    rw [hwritten]
    exact ⟨_, .singleton (.name n.toList hn), .atom (fun c hc => by cases hc) (.name hnamed)⟩
  | const c => exact words_const (h.finite c (mem_nodes _)) (h.numbers c (mem_nodes _))
  | binary op left right ihl ihr =>
    obtain ⟨ts, hspells, hl⟩ := ihl (h.of_nodes fun g hg => by simp [nodes, hg])
    obtain ⟨us, hspells', hr⟩ := ihr (h.of_nodes fun g hg => by simp [nodes, hg])
    refine ⟨_, spells_binary hspells hspells', .atom (fun c hc => by cases hc) ?_⟩
    exact .bracketed (hl.operands op hr)
  | apply f argument ih =>
    obtain ⟨ts, hspells, hwords⟩ := ih (h.of_nodes fun g hg => by simp [nodes, hg])
    refine ⟨_, spells_apply hspells, .atom (fun c hc => by cases hc) ?_⟩
    exact .call hwords.sum (.func (by simpa using f.name_mem_spellings))

theorem ofText_toText_eq {e : Expr Float} (h : Legible e) : ofText e.toText = .ok e.normal := by
  obtain ⟨ts, hspells, hwords⟩ := exists_words h
  rw [ofText, toText, String.toList_ofList]
  exact parse_of_derives hwords.sum hspells

/-- What is written is read back with the signs before bases pulled out, and unchanged if and only if
no power has a constant base with its sign bit set. -/
theorem ofText_toText {e : Expr Float} (h : Legible e) : ofText e.toText = .ok e.normal ∧
    (ofText e.toText = .ok e ↔
      ∀ c right, binary .power (const c) right ∈ e.nodes → signBit c = false) := by
  have hnormal := ofText_toText_eq h
  refine ⟨hnormal, ?_⟩
  rw [hnormal, Except.ok.injEq]
  exact normal_eq_iff

/-- The sine of a power of a negative number, less negative zero. -/
def signedExample : Expr Float :=
  apply .sin (binary .sub (binary .power (const (-2.5)) (var "e")) (const (-0.0)))

theorem ofText_toText_of_signed : Legible signedExample ∧
    signedExample.toText = "sin(((-2.5 ^ e) - -0))" ∧
      ofText signedExample.toText = .ok (apply .sin (binary .sub (binary .mul (const (-Scalar.one))
        (binary .power (const (- -2.5)) (var "e"))) (const (-0.0)))) ∧
        ofText signedExample.toText ≠ .ok signedExample := by
  have hread {x : Float} (h : (Scalar.ofDecimalText? (text x).toList).map Float.toBits =
      some x.toBits) : Scalar.ofDecimalText? (text x).toList = some x := by
    obtain ⟨y, hy, hbits⟩ := Option.map_eq_some_iff.mp h
    rw [hy, Binary64.eq_of_bits (congrArg UInt64.toBitVec hbits)]
  have hlegible : Legible signedExample := by
    refine ⟨fun n hn => ?_, fun c hc => ?_, fun c hc => ?_⟩
    · obtain rfl : n = "e" := by simpa [signedExample, nodes] using hn
      decide +kernel
    · obtain rfl | rfl : c = -2.5 ∨ c = -0.0 := by simpa [signedExample, nodes] using hc
      · decide +kernel
      · decide +kernel
    · obtain rfl | rfl : c = -2.5 ∨ c = -0.0 := by simpa [signedExample, nodes] using hc
      · exact hread (by decide +kernel)
      · exact hread (by decide +kernel)
  have hsign : signBit (-2.5) = true := by decide +kernel
  obtain ⟨hnormal, hsame⟩ := ofText_toText hlegible
  refine ⟨hlegible, by decide +kernel, ?_, fun h => ?_⟩
  · rw [hnormal, signedExample, normal, normal, normal_signed hsign]
    rfl
  · have hplain := hsame.mp h (-2.5) (var "e") (by simp [signedExample, nodes])
    rw [hsign] at hplain
    cases hplain

end Expr

end Trajectory
