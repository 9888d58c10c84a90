import Trajectory.Proofs.Expr.Level
import Trajectory.Proofs.Expr.Search

namespace Trajectory

open Text (isBlank isBlankText isWordChar)
open Trajectory.Bracket (Matched outerCuts isBracket lastBinarySign? lastOf? first?)

namespace Grammar

variable {α : Type} [Scalar α] {k : Category} {ts us : List Token} {a b e : Expr α}
  {s u v : List Char}

theorem shows_product_iff : Shows .product [] s ↔ lastBinarySign? s = none := by
  rw [Bracket.lastBinarySign_eq, Bracket.lastCut_eq_none_iff]
  exact Iff.rfl

theorem shows_unary_iff :
    Shows .unary [] s ↔ lastBinarySign? s = none ∧ lastOf? ['*', '/'] s = none := by
  rw [← shows_product_iff, Bracket.lastOf_eq, Bracket.lastCut_eq_none_iff]
  constructor
  · intro h
    refine ⟨h.product_of_unary, fun c hc => ?_⟩
    obtain ⟨_, htimes, hover⟩ := h c hc
    simp [htimes, hover]
  · rintro ⟨hproduct, hoperator⟩ c hc
    have hmark : c.mark ≠ '*' ∧ c.mark ≠ '/' := by simpa using hoperator c hc
    exact ⟨hproduct c hc, hmark⟩

theorem shows_atom_iff : Shows .atom [] s ↔ Shows .unary [] s ∧ first? '^' s = none := by
  rw [first?, List.find?_eq_none]
  constructor
  · intro h
    refine ⟨h.unary_of_atom, fun c hc => ?_⟩
    have hcaret : c.mark ≠ '^' := And.right (h c hc)
    simpa using hcaret
  · rintro ⟨hunary, hpower⟩ c hc
    have hcaret : c.mark ≠ '^' := by simpa using hpower c hc
    exact ⟨hunary c hc, hcaret⟩

theorem isBlankText_of_derives (h : Derives k ts e) (hs : Spells ts s) : isBlankText s = false := by
  obtain ⟨⟨p, hp, _⟩, _⟩ := endsOperand h hs .nil
  rw [Bool.eq_false_iff, ne_eq, ← Text.isBlankText_reverse, isBlankText, List.all_eq_true]
  intro hblank
  rw [List.append_nil] at hp
  have hmem := List.mem_of_mem_head? hp
  have hnot := Text.dropWhile_head p hp
  rw [hblank p ((List.dropWhile_sublist isBlank).subset hmem)] at hnot
  cases hnot

end Grammar

namespace Form

open Grammar

variable {α : Type} [Scalar α] {k : Category} {ts us : List Token} {a b e : Expr α}
  {s u v : List Char} {c : Cut}

theorem ne_nil_of_derives (h : Derives k ts e) (hs : Spells ts s) : s ≠ [] := by
  rintro rfl
  have hblank := isBlankText_of_derives h hs
  cases hblank

theorem of_eq_ofSign (hm : Matched s) (hne : s ≠ []) (h : lastBinarySign? s = some c) :
    of s = ofSign s c := by
  simp [of, hne, Bracket.balanced_of_matched hm, h]

theorem of_eq_ofOperator (hm : Matched s) (hne : s ≠ []) (hsign : lastBinarySign? s = none)
    (h : lastOf? ['*', '/'] s = some c) :
    of s = ofOperator (if c.mark = '*' then .mul else .div) s c := by
  simp [of, hne, Bracket.balanced_of_matched hm, hsign, h]

theorem of_eq_ofFactor (hm : Matched s) (hne : s ≠ []) (hs : Shows .unary [] s) :
    of s = ofFactor s := by
  obtain ⟨hsign, hoperator⟩ := shows_unary_iff.mp hs
  simp [of, hne, Bracket.balanced_of_matched hm, hsign, hoperator]

theorem of_sum {m : Mark} {op : BinaryOp} (hm : m.sumOp? = some op) (ha : Derives .sum ts a)
    (hb : Derives .product us b) (hu : Spells ts u) (hv : Spells us v) :
    of (u ++ m.char :: v) = binary op u v := by
  obtain ⟨hopening, hbracket⟩ := Mark.isOpening_of_sumOp hm
  have hmatched := matched ha hu
  have hsign : lastBinarySign? (u ++ m.char :: v) = some ⟨u.reverse, m.char, v⟩ := by
    rw [Bracket.lastBinarySign_eq, Bracket.lastCut_eq_some_iff hmatched hbracket,
      Cut.isBinarySign_iff]
    have hends := endsOperand ha hu .nil
    rw [List.append_nil] at hends
    exact ⟨⟨Mark.cases_of_sumOp hm, hends⟩, shows hb hv (.mark hopening _)⟩
  have hop : (if m.char = '+' then BinaryOp.add else .sub) = op := by
    cases m <;> cases hm <;> rfl
  rw [of_eq_ofSign (hmatched.append (.plain hbracket (matched hb hv))) (by simp) hsign]
  simp [ofSign, isBlankText_of_derives hb hv, hop, Cut.before]

theorem of_product {m : Mark} {op : BinaryOp} (hm : m.productOp? = some op)
    (ha : Derives .product ts a) (hb : Derives .unary us b) (hu : Spells ts u) (hv : Spells us v) :
    of (u ++ m.char :: v) = binary op u v := by
  obtain ⟨hopening, hbracket⟩ := Mark.isOpening_of_productOp hm
  have hmatched := matched ha hu
  have hspells : Spells (ts ++ .mark m :: us) (u ++ m.char :: v) :=
    hu.append (hv.mark m)
  have hsign := shows_product_iff.mp (shows (.factor hm ha hb) hspells .nil)
  have hlast : lastOf? ['*', '/'] (u ++ m.char :: v) = some ⟨u.reverse, m.char, v⟩ := by
    rw [Bracket.lastOf_eq, Bracket.lastCut_eq_some_iff hmatched hbracket]
    refine ⟨by simpa using Mark.cases_of_productOp hm, fun c hc => ?_⟩
    obtain ⟨_, htimes, hover⟩ := shows hb hv (.mark hopening _) c hc
    simp [htimes, hover]
  have hop : (if m.char = '*' then BinaryOp.mul else .div) = op := by
    cases m <;> cases hm <;> rfl
  rw [of_eq_ofOperator (hmatched.append (.plain hbracket (matched hb hv))) (by simp) hsign hlast]
  simp [ofOperator, isBlankText_of_derives ha hu, isBlankText_of_derives hb hv, hop, Cut.before]

theorem of_negative (h : Derives .unary us e) (hv : Spells us v) :
    of ('-' :: v) = negative v := by
  have hshows : Shows .unary [] ('-' :: v) := by
    rw [Shows.mark rfl]
    exact ⟨Category.admits_of_opens (.inr rfl) .nil, shows h hv (.mark rfl [])⟩
  rw [of_eq_ofFactor (.plain rfl (matched h hv)) (by simp) hshows]
  rfl

theorem of_positive (h : Derives .unary us e) (hv : Spells us v) :
    of ('+' :: v) = positive v := by
  have hshows : Shows .unary [] ('+' :: v) := by
    rw [Shows.mark rfl]
    exact ⟨Category.admits_of_opens (.inl rfl) .nil, shows h hv (.mark rfl [])⟩
  rw [of_eq_ofFactor (.plain rfl (matched h hv)) (by simp) hshows]
  rfl

theorem exists_cons_of_numberText {digits : List Char} (h : Decimal.NumberText digits) :
    ∃ c rest, digits = c :: rest ∧ Cut.isNumberChar c = true := by
  obtain ⟨mantissa, exponent, rfl, hne, hnumber, _⟩ := h.split
  obtain ⟨c, rest, rfl⟩ := List.exists_cons_of_ne_nil hne
  exact ⟨c, rest ++ exponent, rfl, hnumber c List.mem_cons_self⟩

theorem exists_cons_of_isIdentifier {n : List Char} (h : Text.isIdentifier n = true) :
    ∃ c rest, n = c :: rest ∧ Text.isIdentifierStart c = true := by
  cases n with
  | nil => cases h
  | cons c rest =>
    simp only [Text.isIdentifier, Bool.and_eq_true] at h
    exact ⟨c, rest, rfl, h.1⟩

theorem head_of_atom (h : Derives .atom ts e) (hs : Spells ts s)
    (hhead : ∀ c ∈ s.head?, isBlank c = false) : ∀ c ∈ s.head?, c ≠ '+' ∧ c ≠ '-' := by
  have hplain {c : Char} (hc : Cut.isMark c = false) : c ≠ '+' ∧ c ≠ '-' := by
    constructor <;> · rintro rfl; cases hc
  have hword {n : List Char} (hn : Text.isIdentifier n = true) (v : List Char) :
      ∀ c ∈ (n ++ v).head?, c ≠ '+' ∧ c ≠ '-' := by
    obtain ⟨c, rest, rfl, hc⟩ := exists_cons_of_isIdentifier hn
    have hmark := Cut.isMark_of_isWordChar (Text.isWordChar_of_isIdentifierStart hc)
    simpa using hplain hmark
  cases h with
  | @number digits proper v _ =>
    obtain ⟨b, c, rfl, hb, _⟩ := hs.of_singleton
    obtain rfl := Text.eq_nil_of_head hb hhead
    obtain ⟨d, rest, rfl, hd⟩ := exists_cons_of_numberText proper
    simpa [Token.text] using hplain (Cut.isMark_of_isNumberChar hd)
  | @name n proper _ _ =>
    obtain ⟨b, c, rfl, hb, _⟩ := hs.of_singleton
    obtain rfl := Text.eq_nil_of_head hb hhead
    exact hword proper c
  | bracketed _ =>
    obtain ⟨b, t, c, rfl, hb, _, _⟩ := hs.of_bracketed
    obtain rfl := Text.eq_nil_of_head hb hhead
    simp
  | @call n proper _ _ _ _ _ =>
    obtain ⟨b, d, t, c, rfl, hb, _, _, _⟩ := hs.of_call
    obtain rfl := Text.eq_nil_of_head hb hhead
    exact hword proper _

theorem ofFactor_eq (hhead : ∀ c ∈ s.head?, c ≠ '+' ∧ c ≠ '-') :
    ofFactor s = match first? '^' s with
      | some c => ofOperator .power s c
      | none =>
        match Bracket.inner? s with
        | some inner => bracketed inner
        | none => (ofCall? s).getD (ofToken s) := by
  unfold ofFactor
  split
  next => exact absurd rfl (hhead '-' rfl).2
  next => exact absurd rfl (hhead '+' rfl).1
  next => rfl

theorem of_raised (ha : Derives .atom ts a) (hb : Derives .unary us b) (hu : Spells ts u)
    (hv : Spells us v) (hhead : ∀ c ∈ u.head?, isBlank c = false) :
    of (u ++ '^' :: v) = binary .power u v := by
  have hmatched := matched ha hu
  have hspells : Spells (ts ++ .mark .caret :: us) (u ++ '^' :: v) :=
    hu.append (hv.mark .caret)
  have hne := ne_nil_of_derives ha hu
  have hsign : ∀ c ∈ (u ++ '^' :: v).head?, c ≠ '+' ∧ c ≠ '-' := by
    have hatom := head_of_atom ha hu hhead
    obtain ⟨c, rest, rfl⟩ := List.exists_cons_of_ne_nil hne
    simpa using hatom
  have hfirst : first? '^' (u ++ '^' :: v) = some ⟨u.reverse, '^', v⟩ := by
    rw [first?, Bracket.find_eq_some_iff hmatched rfl]
    refine ⟨rfl, fun c hc => ?_⟩
    have hcaret : c.mark ≠ '^' := And.right (shows ha hu .nil c hc)
    simpa [Bracket.extend] using hcaret
  rw [of_eq_ofFactor (hmatched.append (.plain rfl (matched hb hv))) (by simp)
    (shows (.power (.raised ha hb)) hspells .nil), ofFactor_eq hsign, hfirst]
  simp [ofOperator, isBlankText_of_derives ha hu, isBlankText_of_derives hb hv, Cut.before]

theorem of_atom (h : Derives .atom ts e) (hs : Spells ts s)
    (hhead : ∀ c ∈ s.head?, isBlank c = false) :
    of s = match Bracket.inner? s with
      | some inner => bracketed inner
      | none => (ofCall? s).getD (ofToken s) := by
  obtain ⟨hunary, hfirst⟩ := shows_atom_iff.mp (shows h hs .nil)
  rw [of_eq_ofFactor (matched h hs) (ne_nil_of_derives h hs) hunary,
    ofFactor_eq (head_of_atom h hs hhead), hfirst]

theorem inner_eq_none (h : ∀ c ∈ s.head?, c ≠ '(') : Bracket.inner? s = none := by
  cases hinner : Bracket.inner? s with
  | none => rfl
  | some t =>
    rw [Bracket.eq_bracketed_of_inner hinner] at h
    exact absurd rfl (h '(' rfl)

theorem of_bracketed (h : Derives .sum ts e) (hs : Spells ts s) :
    of ('(' :: s ++ [')']) = bracketed s := by
  have hhead : ∀ c ∈ ('(' :: s ++ [')']).head?, isBlank c = false := by
    intro c hc
    obtain rfl : '(' = c := by simpa using hc
    rfl
  rw [of_atom (.bracketed h) hs.bracketed hhead, Bracket.inner_bracketed (matched h hs)]

theorem of_word (h : Derives .atom ts e) (hs : Spells ts s)
    (hhead : ∀ c ∈ s.head?, isBlank c = false) (hword : '(' ∉ s) : of s = ofToken s := by
  have hinner : Bracket.inner? s = none := by
    refine inner_eq_none fun c hc hopening => hword ?_
    rw [← hopening]
    exact List.mem_of_mem_head? hc
  have hdrop : s.dropWhile (fun c => c != '(') = [] := by
    rw [← List.append_nil s, List.dropWhile_append_of_pos]
    · rfl
    · intro c hc
      have hne : c ≠ '(' := by
        rintro rfl
        exact hword hc
      simpa using hne
  have hcall : ofCall? s = none := by
    simp [ofCall?, hdrop, Bracket.inner?]
  rw [of_atom h hs hhead, hinner, hcall]
  rfl

theorem of_number {digits : List Char} (hd : Decimal.NumberText digits) {x : α}
    (hx : Scalar.ofDecimalText? digits = some x) : of digits = number digits := by
  obtain ⟨c, rest, rfl, hc⟩ := exists_cons_of_numberText hd
  have hword : '(' ∉ c :: rest := by
    intro hmem
    rcases hd.mem '(' hmem with h | h
    · cases h
    · revert h
      decide
  have hblank : ∀ x ∈ (c :: rest).head?, isBlank x = false := by
    simpa using Cut.isBlank_of_isNumberChar hc
  have hspells : Spells [.number (c :: rest) hd] (c :: rest) := .singleton (.number (c :: rest) hd)
  rw [of_word (.number hx) hspells hblank hword]
  simp [ofToken, hc]

theorem of_name {n : List Char} (hn : Text.isIdentifier n = true) (hx : Named n e) :
    of n = name n := by
  obtain ⟨c, rest, rfl, hc⟩ := exists_cons_of_isIdentifier hn
  have hword : '(' ∉ c :: rest := by
    intro hmem
    have hmark := isMark_of_mem_identifier hn '(' hmem
    cases hmark
  have hblank : ∀ x ∈ (c :: rest).head?, isBlank x = false := by
    simpa using Text.isBlank_of_isWordChar (Text.isWordChar_of_isIdentifierStart hc)
  have hpoint : c ≠ '.' := by
    rintro rfl
    cases hc
  have hnumber : Cut.isNumberChar c = false := by
    simp [Cut.isNumberChar, Text.isDigit_of_isIdentifierStart hc, hpoint]
  have hspells : Spells [.name (c :: rest) hn] (c :: rest) := .singleton (.name (c :: rest) hn)
  rw [of_word (.name hx) hspells hblank hword]
  simp [ofToken, hnumber, hn]

theorem of_call {n d : List Char} {f : Expr α} (hn : Text.isIdentifier n = true)
    (hd : isBlankText d = true) (h : Derives .sum ts e) (hs : Spells ts s) (hf : Applied n e f) :
    of (n ++ (d ++ ('(' :: s ++ [')']))) = call n s := by
  have hspells := Spells.name hn hd hs.bracketed
  have hword : ∀ c ∈ n, isWordChar c = true := Text.isWordChar_of_isIdentifier hn
  have hfirst : ∀ c ∈ (n ++ (d ++ ('(' :: s ++ [')']))).head?, isBlank c = false ∧ c ≠ '(' := by
    obtain ⟨c, rest, rfl, hc⟩ := exists_cons_of_isIdentifier hn
    have hne : c ≠ '(' := by
      rintro rfl
      cases hc
    simpa using ⟨Text.isBlank_of_isWordChar (hword c List.mem_cons_self), hne⟩
  have hopening : ∀ c ∈ n ++ d, (c != '(') = true := by
    intro c hc
    have hmark : Cut.isMark c = false := by
      rcases List.mem_append.mp hc with hc | hc
      · exact isMark_of_mem_identifier hn c hc
      · exact isMark_of_mem_blank hd c hc
    have hne : c ≠ '(' := by
      rintro rfl
      cases hmark
    simpa using hne
  have htake : (n ++ (d ++ ('(' :: s ++ [')']))).takeWhile (fun c => c != '(') = n ++ d := by
    rw [← List.append_assoc, List.takeWhile_append_of_pos hopening]
    simp
  have hdrop : (n ++ (d ++ ('(' :: s ++ [')']))).dropWhile (fun c => c != '(') =
      '(' :: s ++ [')'] := by
    rw [← List.append_assoc, List.dropWhile_append_of_pos hopening]
    simp
  have htrim : Text.trim (n ++ d) = n := by
    refine Text.trim_eq (b := []) rfl hd ?_ ?_
    · exact fun c hc => Text.isBlank_of_isWordChar (hword c (List.mem_of_mem_head? hc))
    · exact fun c hc => Text.isBlank_of_isWordChar (hword c (List.mem_of_getLast? hc))
  rw [of_atom (.call h hf) hspells fun c hc => (hfirst c hc).1,
    inner_eq_none fun c hc => (hfirst c hc).2]
  simp only [ofCall?, htake, hdrop, htrim, hn, Bracket.inner_bracketed (matched h hs)]
  rfl

end Form

end Trajectory
