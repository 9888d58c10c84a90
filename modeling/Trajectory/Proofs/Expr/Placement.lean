import Trajectory.Expr.Parser
import Trajectory.Proofs.Expr.Offset
import Trajectory.Proofs.Expr.Outermost
import Trajectory.Proofs.Expr.Parts

namespace Trajectory

namespace Cut

theorem upTo_before (c : Cut) : Text.upTo c.whole (Text.size c.before) = .ok c.before :=
  Text.upTo_append c.before (c.mark :: c.after)

theorem onward_after {c : Cut} (h : c.mark.toNat < 128) :
    Text.onward c.whole (Text.size c.before + 1) = .ok c.after :=
  Text.onward_cons c.before c.after (Text.utf8Size_eq_one_iff.mpr h)

theorem before_infix (c : Cut) : c.before <:+: c.whole :=
  (List.prefix_append c.before (c.mark :: c.after)).isInfix

theorem after_infix (c : Cut) : c.after <:+: c.whole := by
  refine ⟨c.before ++ [c.mark], [], ?_⟩
  simp [whole]

end Cut

namespace Form

open Text (trim size)

/-- Every part of a form stands in the text it is the form of. -/
def Within (s : List Char) (f : Form) : Prop := ∀ p ∈ f.parts, p <:+: s

theorem infix_of_inner {s t : List Char} (h : Bracket.inner? s = some t) : t <:+: s :=
  ⟨['('], [')'], (Bracket.eq_bracketed_of_inner h).symm⟩

theorem IsPart.isInfix {s p : List Char} (h : IsPart s p) : p <:+: s := by
  cases h with
  | @before c hc =>
    rw [← Bracket.whole_outerCuts hc]
    exact c.before_infix
  | @after c hc =>
    rw [← Bracket.whole_outerCuts hc]
    exact c.after_infix
  | @inner u v _ hs hp =>
    rw [hs]
    exact (infix_of_inner hp).trans (List.suffix_append u v).isInfix

theorem within_of (s : List Char) : (of s).Within s :=
  fun _ hp => (isPart_of_mem_parts hp).2.isInfix

theorem trim_part_lt {s p : List Char} (hp : p ∈ (of (trim s)).parts) :
    (trim p).length < (trim s).length ∧ size (trim p) < size (trim s) := by
  have hlength := below_of (trim s) p hp
  have hsize := Text.size_lt_of_infix (within_of (trim s) p hp) hlength
  have hlength_le := Text.length_trim_le p
  have hsize_le := Text.size_trim_le p
  omega

end Form

namespace Offset

open Text

section Forms

def ofSign (s : List Char) (m : Nat × Char) : Placed Form := do
  let before ← upTo s m.1
  let after ← onward s (m.1 + 1)
  if isBlankText after then pure (.fault (.missingAfter m.2 s))
  else pure (.binary (if m.2 = '+' then .add else .sub) before after)

def ofOperator (op : BinaryOp) (mark : Char) (s : List Char) (i : Nat) : Placed Form := do
  let before ← upTo s i
  let after ← onward s (i + 1)
  if isBlankText before || isBlankText after then pure (.fault (.missingAround mark s))
  else pure (.binary op before after)

/-- The text in one pair of brackets around all of `s`. -/
def inner? (s : List Char) : Placed (Option (List Char)) :=
  match s with
  | '(' :: _ => enclosed? s 0
  | _ => pure none

def ofCall? (s : List Char) : Placed (Option Form) :=
  match find? '(' s with
  | none => pure none
  | some start => do
    let before ← upTo s start
    if isIdentifier (trim before) then do
      let argument ← enclosed? s start
      pure (argument.map fun text => .call (trim before) text)
    else pure none

def ofFactor (s : List Char) : Placed Form :=
  match s with
  | '-' :: operand => pure (.negative operand)
  | '+' :: operand => pure (.positive operand)
  | _ =>
    match first? '^' s with
    | some i => ofOperator .power '^' s i
    | none => do
      let inner ← inner? s
      match inner with
      | some text => pure (.bracketed text)
      | none => do
        let called ← ofCall? s
        pure (called.getD (Form.ofToken s))

/-- The form of a text that is trimmed. -/
def form (s : List Char) : Placed Form :=
  if s.isEmpty then pure (.fault .empty)
  else if !Bracket.balanced s then pure (.fault (.unbalanced s))
  else do
    let sign ← lastBinarySign? s
    match sign with
    | some m => ofSign s m
    | none =>
      match lastOf? ['*', '/'] s with
      | some m => ofOperator (if m.2 = '*' then .mul else .div) m.2 s m.1
      | none => ofFactor s

end Forms

section Characters

variable {s : List Char} {c : Cut}

theorem ofSign_eq (h : c.whole = s) (hmark : c.mark.toNat < 128) :
    ofSign s (ofCut c) = .ok (Form.ofSign s c) := by
  subst h
  rw [ofSign, ofCut, c.upTo_before, Placed.ok_bind, Cut.onward_after hmark, Placed.ok_bind, Form.ofSign]
  split <;> rfl

theorem ofOperator_eq (op : BinaryOp) (h : c.whole = s) (hmark : c.mark.toNat < 128) :
    ofOperator op c.mark s (size c.before) = .ok (Form.ofOperator op s c) := by
  subst h
  rw [ofOperator, c.upTo_before, Placed.ok_bind, Cut.onward_after hmark, Placed.ok_bind, Form.ofOperator]
  split <;> rfl

theorem inner_eq (s : List Char) : inner? s = .ok (Bracket.inner? s) := by
  unfold inner?
  split
  next t => exact enclosed_eq [] t
  next hopening =>
    unfold Bracket.inner?
    split
    next t _ _ _ => exact absurd rfl (hopening t)
    next => rfl

theorem ofCall_eq (s : List Char) : ofCall? s = .ok (Form.ofCall? s) := by
  rw [ofCall?, Form.ofCall?]
  obtain ⟨hdrop, hfind⟩ | ⟨t, hdrop, hfind⟩ := find_cases '(' s
  · rw [hfind, hdrop]
    show Except.ok none = _
    split <;> rfl
  · have hsplit : s.takeWhile (fun c => c != '(') ++ '(' :: t = s := by
      rw [← hdrop, List.takeWhile_append_dropWhile]
    have hupTo := upTo_append (s.takeWhile fun c => c != '(') ('(' :: t)
    have henclosed := enclosed_eq (s.takeWhile fun c => c != '(') t
    rw [hsplit] at hupTo henclosed
    rw [hfind, hdrop]
    simp only [hupTo, henclosed, Placed.ok_bind]
    split <;> rfl

theorem mark_of_lastBinarySign (h : Bracket.lastBinarySign? s = some c) : c.mark = '+' ∨ c.mark = '-' := by
  have hsign := (List.mem_filter.mp (List.mem_of_getLast? h)).2
  simp only [Cut.isBinarySign, Bool.and_eq_true, Bool.or_eq_true, beq_iff_eq] at hsign
  exact hsign.1

theorem mark_of_lastOf {ops : List Char} (h : Bracket.lastOf? ops s = some c) : c.mark ∈ ops := by
  have hmark := (List.mem_filter.mp (List.mem_of_getLast? h)).2
  simpa using hmark

theorem mark_of_first {mark : Char} (h : Bracket.first? mark s = some c) : c.mark = mark := by
  simpa using List.find?_some h

theorem ofFactor_eq (s : List Char) : ofFactor s = .ok (Form.ofFactor s) := by
  unfold ofFactor
  split
  next => rfl
  next => rfl
  next hminus hplus =>
    have hhead : ∀ c ∈ s.head?, c ≠ '+' ∧ c ≠ '-' := by
      intro c hc
      cases s with
      | nil => cases hc
      | cons a s =>
        obtain rfl : a = c := by simpa using hc
        exact ⟨fun h => hplus s (by rw [h]), fun h => hminus s (by rw [h])⟩
    rw [Form.ofFactor_eq hhead, first_eq]
    cases hpower : Bracket.first? '^' s with
    | some c =>
      have hmark := mark_of_first hpower
      have hoperator := ofOperator_eq .power (Bracket.whole_first hpower) (by rw [hmark]; decide)
      rwa [hmark] at hoperator
    | none =>
      show (inner? s >>= _) = _
      rw [inner_eq, Placed.ok_bind]
      cases Bracket.inner? s with
      | some text => rfl
      | none =>
        show (ofCall? s >>= _) = _
        rw [ofCall_eq]
        rfl

/-- No offset at which a text is taken apart is misplaced. -/
theorem form_eq (s : List Char) : form s = .ok (Form.of s) := by
  rw [form, Form.of]
  split
  next => rfl
  next =>
    split
    next => rfl
    next =>
      rw [lastBinarySign_eq, Placed.ok_bind, lastOf_eq]
      cases hsign : Bracket.lastBinarySign? s with
      | some c =>
        apply ofSign_eq (Bracket.whole_lastBinarySign hsign)
        rcases mark_of_lastBinarySign hsign with hmark | hmark <;> rw [hmark] <;> decide
      | none =>
        cases hproduct : Bracket.lastOf? ['*', '/'] s with
        | some c =>
          apply ofOperator_eq _ (Bracket.whole_lastOf hproduct)
          have hmark := mark_of_lastOf hproduct
          simp only [List.mem_cons, List.not_mem_nil, or_false] at hmark
          rcases hmark with hmark | hmark <;> rw [hmark] <;> decide
        | none => exact ofFactor_eq s

end Characters

section Parse

variable {α : Type} [Scalar α]

/-- What is read by offsets: a value, a fault of the text, or an offset that is misplaced. -/
abbrev Reading (β : Type) := ExceptT ParseError Placed β

def parse (s : List Char) : Reading (Expr α) :=
  match _form : form (trim s) with
  | .error e => ExceptT.lift (.error e)
  | .ok (.binary op left right) => do
    let a ← parse left
    let b ← parse right
    pure (.binary op a b)
  | .ok (.negative operand) => do
    let e ← parse operand
    pure e.negated
  | .ok (.positive operand) => parse operand
  | .ok (.bracketed inner) => parse inner
  | .ok (.call name argument) => do
    let e ← parse argument
    ExceptT.mk (.ok (Expr.ofCall name e))
  | .ok (.number digits) => ExceptT.mk (.ok (Expr.ofNumber digits))
  | .ok (.name identifier) => pure (Expr.ofName identifier)
  | .ok (.fault e) => throw e
termination_by s.length
decreasing_by
  all_goals
    rw [form_eq, Except.ok.injEq] at _form
    exact Form.length_part_lt _form (by simp [Form.parts])

theorem parse_of_form (s : List Char) : (parse s : Reading (Expr α)) =
    match Form.of (trim s) with
    | .binary op left right => do
      let a ← parse left
      let b ← parse right
      pure (.binary op a b)
    | .negative operand => do
      let e ← parse operand
      pure e.negated
    | .positive operand => parse operand
    | .bracketed inner => parse inner
    | .call name argument => do
      let e ← parse argument
      ExceptT.mk (.ok (Expr.ofCall name e))
    | .number digits => ExceptT.mk (.ok (Expr.ofNumber digits))
    | .name identifier => pure (Expr.ofName identifier)
    | .fault e => throw e := by
  rw [parse]
  split
  next e herror =>
    rw [form_eq] at herror
    cases herror
  all_goals
    next hform =>
      rw [form_eq, Except.ok.injEq] at hform
      rw [hform]

/-- Reading by offsets is reading by characters: a text gives an expression or a fault, and none of the
offsets on the way to it is misplaced. -/
theorem parse_eq (s : List Char) :
    (parse s : Reading (Expr α)) = ExceptT.mk (.ok (Expr.parse s)) := by
  fun_induction Expr.parse (α := α) s with
  | case1 s op left right hform ihl ihr =>
    rw [parse_of_form, hform]
    show (parse left >>= fun a => parse right >>= fun b => pure (Expr.binary op a b)) = _
    rw [ihl, ihr]
    cases Expr.parse (α := α) left with
    | error e => rfl
    | ok a => cases Expr.parse (α := α) right <;> rfl
  | case2 s operand hform ih =>
    rw [parse_of_form, hform]
    show (parse operand >>= fun e => pure e.negated) = _
    rw [ih]
    cases Expr.parse (α := α) operand <;> rfl
  | case3 s operand hform ih => rw [parse_of_form, hform, ← ih]
  | case4 s inner hform ih => rw [parse_of_form, hform, ← ih]
  | case5 s name argument hform ih =>
    rw [parse_of_form, hform]
    show (parse argument >>= fun e => ExceptT.mk (.ok (Expr.ofCall name e))) = _
    rw [ih]
    cases Expr.parse (α := α) argument <;> rfl
  | case6 s digits hform => rw [parse_of_form, hform]
  | case7 s identifier hform =>
    rw [parse_of_form, hform]
    rfl
  | case8 s e hform =>
    rw [parse_of_form, hform]
    rfl

variable (α) in
/-- The parser is total. For every text it gives an expression or a fault without reading at a misplaced
offset, and every text that it goes on to is, trimmed, shorter than the trimmed text it was called with. -/
theorem parse_total (text : String) :
    (parse text.toList : Reading (Expr α)) = ExceptT.mk (.ok (Expr.ofText text)) ∧
      ∀ s : List Char, ∃ f, form (trim s) = .ok f ∧
        ∀ p ∈ f.parts, (trim p).length < (trim s).length ∧ size (trim p) < size (trim s) := by
  refine ⟨parse_eq text.toList, ?_⟩
  intro s
  refine ⟨Form.of (trim s), form_eq (trim s), ?_⟩
  intro p hp
  exact Form.trim_part_lt hp

end Parse

end Offset

end Trajectory
