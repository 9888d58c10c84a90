import Trajectory.Expr.Parser
import Trajectory.Outcome
import Trajectory.Proofs.Expr.Outermost

namespace Trajectory

open Text (isBlank isBlankText trim)
open Trajectory.Bracket (lastBinarySign? lastOf? first?)
open Grammar

variable {α : Type} [Scalar α] {k : Category} {ts us : List Token} {a b e f : Expr α}
  {s t u v : List Char} {c : Cut}

/-- The tree of a form whose parts are read by `read`. -/
def Form.tree (read : List Char → Except ParseError (Expr α)) : Form → Except ParseError (Expr α)
  | binary op left right => do
    let a ← read left
    let b ← read right
    pure (.binary op a b)
  | negative operand => do
    let e ← read operand
    pure e.negated
  | positive operand => read operand
  | bracketed inner => read inner
  | call function argument => do
    let e ← read argument
    Expr.ofCall function e
  | number digits => Expr.ofNumber digits
  | name identifier => .ok (Expr.ofName identifier)
  | fault e => .error e

namespace Expr

theorem parse_eq (s : List Char) : parse (α := α) s = (Form.of (trim s)).tree parse := by
  rw [parse]
  split
  all_goals
    next h =>
      rw [h]
      rfl

theorem trim_closing {b w v c : List Char} (hb : isBlankText b = true) (hc : isBlankText c = true)
    (hw : w = v ++ [')']) (hhead : ∀ x ∈ w.head?, isBlank x = false) : trim (b ++ (w ++ c)) = w := by
  refine Text.trim_eq hb hc hhead fun x hx => ?_
  rw [hw, List.getLast?_concat] at hx
  cases hx
  rfl

theorem parse_of_derives (h : Derives k ts e) (hs : Spells ts s) : parse s = .ok e := by
  induction h generalizing s with
  | product _ ih => exact ih hs
  | sum hm ha hb iha ihb =>
    obtain ⟨u, v, htrim, hu, hv⟩ := hs.trim.of_append_mark
    rw [parse_eq, htrim, Form.of_sum hm ha hb hu hv, Form.tree, iha hu, ihb hv]
    rfl
  | unary _ ih => exact ih hs
  | factor hm ha hb iha ihb =>
    obtain ⟨u, v, htrim, hu, hv⟩ := hs.trim.of_append_mark
    rw [parse_eq, htrim, Form.of_product hm ha hb hu hv, Form.tree, iha hu, ihb hv]
    rfl
  | power _ ih => exact ih hs
  | positive h ih =>
    obtain ⟨b, v, htrim, hb, hv⟩ := hs.trim.of_mark
    have hhead := Text.trim_head s
    rw [htrim] at hhead
    obtain rfl := Text.eq_nil_of_head hb hhead
    rw [parse_eq, htrim, List.nil_append, Mark.char, Form.of_positive h hv, Form.tree, ih hv]
  | negative h hf ih =>
    obtain ⟨b, v, htrim, hb, hv⟩ := hs.trim.of_mark
    have hhead := Text.trim_head s
    rw [htrim] at hhead
    obtain rfl := Text.eq_nil_of_head hb hhead
    rw [parse_eq, htrim, List.nil_append, Mark.char, Form.of_negative h hv, Form.tree, ih hv,
      negated_iff.mp hf]
    rfl
  | atom _ ih => exact ih hs
  | raised ha hb iha ihb =>
    obtain ⟨u, v, htrim, hu, hv⟩ := hs.trim.of_append_mark
    have hne := Form.ne_nil_of_derives ha hu
    have hhead : ∀ c ∈ u.head?, isBlank c = false := by
      have h := Text.trim_head s
      rw [htrim] at h
      obtain ⟨c, rest, rfl⟩ := List.exists_cons_of_ne_nil hne
      exact h
    rw [parse_eq, htrim, Mark.char, Form.of_raised ha hb hu hv hhead, Form.tree, iha hu, ihb hv]
    rfl
  | @number digits proper v hx =>
    obtain ⟨b, c, rfl, hb, hc⟩ := hs.of_singleton
    have htrim : trim (b ++ (digits ++ c)) = digits :=
      (Token.number digits proper).trim_text hb hc
    rw [Token.text, parse_eq, htrim, Form.of_number proper hx, Form.tree, ofNumber, hx]
  | @name n proper e he =>
    obtain ⟨b, c, rfl, hb, hc⟩ := hs.of_singleton
    have htrim : trim (b ++ (n ++ c)) = n := (Token.name n proper).trim_text hb hc
    rw [Token.text, parse_eq, htrim, Form.of_name proper he, Form.tree, named_iff.mp he]
  | bracketed h ih =>
    obtain ⟨b, t, c, rfl, hb, ht, hc⟩ := hs.of_bracketed
    have hhead : ∀ x ∈ ('(' :: t ++ [')']).head?, isBlank x = false := by
      simpa using Cut.isBlank_of_isMark (c := '(') rfl
    have htrim := trim_closing hb hc rfl hhead
    rw [parse_eq, htrim, Form.of_bracketed h ht, Form.tree, ih ht]
  | @call n proper _ _ _ h hf ih =>
    obtain ⟨b, d, t, c, rfl, hb, hd, ht, hc⟩ := hs.of_call
    have hhead : ∀ x ∈ (n ++ (d ++ ('(' :: t ++ [')']))).head?, isBlank x = false := by
      obtain ⟨x, rest, rfl, hx⟩ := Form.exists_cons_of_isIdentifier proper
      simpa using Text.isBlank_of_isWordChar (Text.isWordChar_of_isIdentifierStart hx)
    have hlast : n ++ (d ++ ('(' :: t ++ [')'])) = (n ++ (d ++ '(' :: t)) ++ [')'] := by simp
    have htrim := trim_closing hb hc hlast hhead
    rw [List.append_assoc, List.append_assoc] at htrim
    rw [parse_eq, htrim, Form.of_call proper hd h ht hf, Form.tree, ih ht]
    exact applied_iff.mp hf

end Expr

namespace Grammar

theorem spells_append_mark {n : Mark} (hu : Spells ts u) (hv : Spells us v) :
    Spells (ts ++ .mark n :: us) (u ++ n.char :: v) :=
  hu.append (hv.mark n)

theorem exists_sumMark {m : Char} (hm : m = '+' ∨ m = '-') :
    ∃ n : Mark, n.char = m ∧ n.sumOp? = some (if m = '+' then .add else .sub) := by
  rcases hm with rfl | rfl
  · exact ⟨.plus, rfl, rfl⟩
  · exact ⟨.minus, rfl, rfl⟩

theorem exists_productMark {m : Char} (hm : m = '*' ∨ m = '/') :
    ∃ n : Mark, n.char = m ∧ n.productOp? = some (if m = '*' then .mul else .div) := by
  rcases hm with rfl | rfl
  · exact ⟨.times, rfl, rfl⟩
  · exact ⟨.slash, rfl, rfl⟩

/-- No binary sign follows the last one, so what follows it is a product. -/
theorem reads_of_sign {m : Char} (hc : lastBinarySign? (u ++ m :: v) = some ⟨u.reverse, m, v⟩)
    (ha : Reads u a) (hb : Reads v b) :
    Reads (u ++ m :: v) (.binary (if m = '+' then .add else .sub) a b) := by
  obtain ⟨ts, hu, ha⟩ := ha
  obtain ⟨us, hv, hb⟩ := hb
  have hbinary := (List.mem_filter.mp (List.mem_of_getLast? hc)).2
  obtain ⟨n, rfl, hop⟩ := exists_sumMark (Cut.isBinarySign_iff.mp hbinary).1
  obtain ⟨hopening, hbracket⟩ := Mark.isOpening_of_sumOp hop
  rw [Bracket.lastBinarySign_eq, Bracket.lastCut_eq_some_iff (matched ha hu) hbracket] at hc
  have hproduct := product_of_shows hb hv (.mark hopening u.reverse) hc.2
  exact ⟨_, spells_append_mark hu hv, .sum hop ha hproduct⟩

/-- Without a binary sign, what stands before the last operator of a product is a product. -/
theorem reads_of_operator {m : Char} (hsign : lastBinarySign? (u ++ m :: v) = none)
    (hc : lastOf? ['*', '/'] (u ++ m :: v) = some ⟨u.reverse, m, v⟩) (ha : Reads u a)
    (hb : Reads v b) : Reads (u ++ m :: v) (.binary (if m = '*' then .mul else .div) a b) := by
  obtain ⟨ts, hu, ha⟩ := ha
  obtain ⟨us, hv, hb⟩ := hb
  have hmark := (List.mem_filter.mp (List.mem_of_getLast? hc)).2
  obtain ⟨n, rfl, hop⟩ := exists_productMark (m := m) (by simpa using hmark)
  obtain ⟨hopening, hbracket⟩ := Mark.isOpening_of_productOp hop
  rw [← shows_product_iff, Shows.append_mark (matched ha hu) hbracket, List.append_nil] at hsign
  rw [Bracket.lastOf_eq, Bracket.lastCut_eq_some_iff (matched ha hu) hbracket] at hc
  have hproduct := product_of_shows ha hu .nil hsign.1
  have hshows : Shows .unary (n.char :: u.reverse) v := by
    intro c hmem
    have hne : c.mark ≠ '*' ∧ c.mark ≠ '/' := by simpa using hc.2 c hmem
    exact ⟨hsign.2.2 c hmem, hne⟩
  have hunary := unary_of_shows hb hv (.mark hopening u.reverse) hshows
  exact ⟨_, spells_append_mark hu hv, .product (.factor hop hproduct hunary)⟩

theorem reads_of_caret {m : Char} (hshows : Shows .unary [] (u ++ m :: v))
    (hhead : ∀ c ∈ (u ++ m :: v).head?, isBlank c = false ∧ c ≠ '+' ∧ c ≠ '-')
    (hc : first? '^' (u ++ m :: v) = some ⟨u.reverse, m, v⟩) (ha : Reads u a) (hb : Reads v b) :
    Reads (u ++ m :: v) (.binary .power a b) := by
  obtain ⟨ts, hu, ha⟩ := ha
  obtain ⟨us, hv, hb⟩ := hb
  obtain rfl : m = '^' := by simpa using List.find?_some hc
  rw [Shows.append_mark (matched ha hu) rfl, List.append_nil] at hshows
  rw [first?, Bracket.find_eq_some_iff (matched ha hu) rfl] at hc
  have hne := Form.ne_nil_of_derives ha hu
  have hfirst : ∀ c ∈ u.head?, isBlank c = false ∧ c ≠ '+' ∧ c ≠ '-' := by
    obtain ⟨c, rest, rfl⟩ := List.exists_cons_of_ne_nil hne
    exact hhead
  have hpower := power_of_head (unary_of_shows ha hu .nil hshows.1) hu hfirst
  have hatoms : Shows .atom [] u := by
    intro c hmem
    have hcaret : c.mark ≠ '^' := by simpa [Bracket.extend] using hc.2 c hmem
    exact ⟨hshows.1 c hmem, hcaret⟩
  have hraised := unary_of_shows hb hv (.mark rfl u.reverse) hshows.2.2
  exact ⟨_, hu.append (hv.mark .caret), .product (.unary (.power
    (.raised (atom_of_shows hpower hu hatoms) hraised)))⟩

/-- An operand with a sign before it shows no operator of a sum or a product. -/
theorem unary_of_signed {m : Char} (hm : m = '+' ∨ m = '-') (hshows : Shows .unary [] (m :: v))
    (hb : Derives .sum us b) (hv : Spells us v) : Derives .unary us b := by
  have hbracket : Bracket.isBracket m = false := by rcases hm with rfl | rfl <;> rfl
  have hopening : Cut.isOpening m = true := by rcases hm with rfl | rfl <;> rfl
  rw [Shows.mark hbracket] at hshows
  exact unary_of_shows hb hv (.mark hopening []) hshows.2

theorem Derives.sum_of_atom (h : Derives .atom ts e) : Derives .sum ts e :=
  .product (.unary (.power (.atom h)))

end Grammar

namespace Expr

/-- Every part of a form that is read is a sum. -/
def PartsRead (α : Type) [Scalar α] (f : Form) : Prop :=
  ∀ p ∈ f.parts, ∀ e : Expr α, parse p = .ok e → Reads p e

theorem exists_of_binary {op : BinaryOp} (h : (Form.binary op u v).tree parse = .ok e)
    (hparts : PartsRead α (.binary op u v)) :
    ∃ a b, Reads u a ∧ Reads v b ∧ e = .binary op a b := by
  obtain ⟨a, ha, h⟩ := bind_eq_ok.mp h
  obtain ⟨b, hb, h⟩ := bind_eq_ok.mp h
  cases h
  exact ⟨a, b, hparts u (by simp [Form.parts]) a ha, hparts v (by simp [Form.parts]) b hb, rfl⟩

theorem reads_of_ofSign (hc : lastBinarySign? s = some c) (hparts : PartsRead α (Form.ofSign s c))
    (h : (Form.ofSign s c).tree parse = .ok e) : Reads s e := by
  obtain ⟨u, m, v, rfl⟩ := c.exists_eq
  have hwhole := Bracket.whole_lastBinarySign hc
  rw [Cut.whole_mk] at hwhole
  subst hwhole
  unfold Form.ofSign at h hparts
  split at h
  next => cases h
  next hblank =>
    rw [if_neg hblank, Cut.before_mk] at hparts
    rw [Cut.before_mk] at h
    obtain ⟨a, b, ha, hb, rfl⟩ := exists_of_binary h hparts
    exact reads_of_sign hc ha hb

theorem exists_of_ofOperator {op : BinaryOp} {m : Char}
    (hparts : PartsRead α (Form.ofOperator op s ⟨u.reverse, m, v⟩))
    (h : (Form.ofOperator op s ⟨u.reverse, m, v⟩).tree parse = .ok e) :
    ∃ a b, Reads u a ∧ Reads v b ∧ e = .binary op a b := by
  unfold Form.ofOperator at h hparts
  split at h
  next => cases h
  next hblank =>
    rw [if_neg hblank, Cut.before_mk] at hparts
    rw [Cut.before_mk] at h
    exact exists_of_binary h hparts

theorem reads_of_ofToken (h : (Form.ofToken s).tree parse = .ok e) : Reads s e := by
  unfold Form.ofToken at h
  split at h
  next =>
    change ofNumber s = .ok e at h
    unfold ofNumber at h
    split at h
    next x hx =>
      cases h
      have hnumber : Decimal.NumberText s := by
        rw [← Decimal.read_isSome_iff]
        unfold Scalar.ofDecimalText? at hx
        obtain ⟨d, hd, _⟩ := Option.map_eq_some_iff.mp hx
        rw [hd]
        rfl
      exact ⟨_, .singleton (.number s hnumber), Derives.sum_of_atom (.number hx)⟩
    next => cases h
  next =>
    split at h
    next hidentifier =>
      cases h
      exact ⟨_, .singleton (.name s hidentifier), Derives.sum_of_atom (.name (named_iff.mpr rfl))⟩
    next => cases h

theorem reads_of_ofCall {f : Form} (hf : Form.ofCall? s = some f) (hparts : PartsRead α f)
    (h : f.tree parse = .ok e) : Reads s e := by
  simp only [Form.ofCall?] at hf
  split at hf
  next hidentifier =>
    obtain ⟨argument, hinner, rfl⟩ := Option.map_eq_some_iff.mp hf
    obtain ⟨a, ha, hcall⟩ := bind_eq_ok.mp h
    obtain ⟨ts, hspells, hsum⟩ := hparts argument (by simp [Form.parts]) a ha
    have hbracketed := Bracket.eq_bracketed_of_inner hinner
    obtain ⟨b, c, hb, hc, hname⟩ := Text.trim_surrounded (s.takeWhile fun c => c != '(')
    have hs : s = b ++ (trim (s.takeWhile fun c => c != '(') ++ (c ++ ('(' :: argument ++ [')']))) := by
      rw [← hbracketed]
      conv => lhs; rw [← List.takeWhile_append_dropWhile (p := fun c => c != '(') (l := s), hname]
      simp
    rw [hs]
    exact ⟨_, (Spells.name hidentifier hc hspells.bracketed).blank_append hb,
      Derives.sum_of_atom (.call hsum (applied_iff.mpr hcall))⟩
  next => cases hf

theorem reads_of_ofFactor (hshows : Shows .unary [] s) (hblank : ∀ c ∈ s.head?, isBlank c = false)
    (hparts : PartsRead α (Form.ofFactor s)) (h : (Form.ofFactor s).tree parse = .ok e) :
    Reads s e := by
  by_cases hhead : ∀ c ∈ s.head?, c ≠ '+' ∧ c ≠ '-'
  · rw [Form.ofFactor_eq hhead] at h hparts
    split at h
    next c hc =>
      simp only [hc] at hparts
      obtain ⟨u, m, v, rfl⟩ := c.exists_eq
      have hwhole := Bracket.whole_first hc
      rw [Cut.whole_mk] at hwhole
      subst hwhole
      obtain ⟨a, b, ha, hb, rfl⟩ := exists_of_ofOperator hparts h
      exact reads_of_caret hshows (fun c hc => ⟨hblank c hc, hhead c hc⟩) hc ha hb
    next hc =>
      simp only [hc] at hparts
      split at h
      next inner hinner =>
        simp only [hinner] at hparts
        obtain ⟨ts, hspells, hsum⟩ := hparts inner (by simp [Form.parts]) e h
        rw [Bracket.eq_bracketed_of_inner hinner]
        exact ⟨_, hspells.bracketed, Derives.sum_of_atom (.bracketed hsum)⟩
      next hinner =>
        simp only [hinner] at hparts
        cases hcall : Form.ofCall? s with
        | none =>
          rw [hcall] at h
          exact reads_of_ofToken h
        | some f =>
          rw [hcall] at h hparts
          exact reads_of_ofCall hcall hparts h
  · cases s with
    | nil => simp at hhead
    | cons c operand =>
      have hsign : c = '+' ∨ c = '-' := by
        simpa [Decidable.or_iff_not_imp_left] using hhead
      rcases hsign with rfl | rfl
      · obtain ⟨us, hv, hb⟩ := hparts operand (by simp [Form.parts, Form.ofFactor]) e h
        have hunary := unary_of_signed (.inl rfl) hshows hb hv
        exact ⟨_, hv.mark .plus, .product (.unary (.positive hunary))⟩
      · obtain ⟨a, ha, hnegated⟩ := bind_eq_ok.mp h
        cases hnegated
        obtain ⟨us, hv, hb⟩ := hparts operand (by simp [Form.parts, Form.ofFactor]) a ha
        have hunary := unary_of_signed (.inr rfl) hshows hb hv
        exact ⟨_, hv.mark .minus, .product (.unary (.negative hunary (negated_iff.mpr rfl)))⟩

theorem reads_of_form (hblank : ∀ c ∈ s.head?, isBlank c = false) (hparts : PartsRead α (Form.of s))
    (h : (Form.of s).tree parse = .ok e) : Reads s e := by
  unfold Form.of at h hparts
  split at h
  next => cases h
  next hempty =>
    rw [if_neg hempty] at hparts
    split at h
    next => cases h
    next hbalanced =>
      rw [if_neg hbalanced] at hparts
      split at h
      next c hc =>
        simp only [hc] at hparts
        exact reads_of_ofSign hc hparts h
      next hsign =>
        simp only [hsign] at hparts
        split at h
        next c hc =>
          simp only [hc] at hparts
          obtain ⟨u, m, v, rfl⟩ := c.exists_eq
          have hwhole := Bracket.whole_lastOf hc
          rw [Cut.whole_mk] at hwhole
          subst hwhole
          obtain ⟨a, b, ha, hb, rfl⟩ := exists_of_ofOperator hparts h
          exact reads_of_operator hsign hc ha hb
        next hoperator =>
          simp only [hoperator] at hparts
          exact reads_of_ofFactor (shows_unary_iff.mpr ⟨hsign, hoperator⟩) hblank hparts h

theorem reads_of_parse (h : parse s = .ok e) : Reads s e := by
  induction hn : s.length using Nat.strongRecOn generalizing s e with
  | ind n ih =>
    rw [parse_eq] at h
    -- What is read from the parts of a form is derived already, for they are shorter.
    have hparts : PartsRead α (Form.of (trim s)) := by
      intro p hp a ha
      have hlength := Form.length_part_lt rfl hp
      exact ih p.length (by omega) ha rfl
    obtain ⟨ts, hspells, hsum⟩ := reads_of_form (Text.trim_head s) hparts h
    exact ⟨ts, hspells.of_trim, hsum⟩

/-- A text is read as a tree if and only if the grammar derives the tree from it. -/
theorem ofText_eq_ok_iff {input : String} : ofText input = .ok e ↔ Reads input.toList e :=
  ⟨reads_of_parse, fun ⟨_, hspells, hsum⟩ => parse_of_derives hsum hspells⟩

end Expr

end Trajectory
