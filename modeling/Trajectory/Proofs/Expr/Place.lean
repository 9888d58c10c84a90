import Trajectory.Proofs.Expr.Token
import Trajectory.Proofs.Text.Offset

namespace Trajectory

open Text (isBlank isBlankText size)

/-- The words of a text are some words `before`, then `t`, which begins at an offset, then others. -/
def StandsAt (ts : List Token) (s : List Char) (before : List Token) (t : Token) (i : Nat) : Prop :=
  ∃ after u v, ts = before ++ t :: after ∧ s = u ++ (t.text ++ v) ∧ Spells before u ∧ Spells after v ∧
    size u = i

theorem exists_of_append_eq {β : Type} {xs ys us vs : List β} {b : β} (h : xs ++ ys = us ++ b :: vs) :
    (∃ ws, xs = us ++ b :: ws ∧ vs = ws ++ ys) ∨ ∃ ws, us = xs ++ ws ∧ ys = ws ++ b :: vs := by
  rcases List.append_eq_append_iff.mp h with ⟨ws, hus, hys⟩ | ⟨ws, hxs, hvs⟩
  · exact .inr ⟨ws, hus, hys⟩
  · cases ws with
    | nil => exact .inr ⟨[], by simpa using hxs.symm, hvs.symm⟩
    | cons a ws =>
      obtain ⟨rfl, rfl⟩ := List.cons.inj hvs
      exact .inl ⟨ws, hxs, rfl⟩

theorem Token.isBlank_of_head_text (t : Token) (v : List Char) :
    ∀ c ∈ (t.text ++ v).head?, isBlank c = false := by
  obtain ⟨c, rest, htext⟩ := List.exists_cons_of_ne_nil t.text_ne_nil
  simpa [htext] using t.isBlank_of_mem_text c (by simp [htext])

namespace Spells

variable {ts us : List Token} {s t u v x y : List Char}

theorem exists_word {m : Char} (h : Spells ts (x ++ m :: y)) (hm : isBlank m = false) :
    ∃ before t after u a b v, ts = before ++ t :: after ∧ Spells before u ∧ Spells after v ∧
      t.text = a ++ m :: b ∧ x = u ++ a ∧ y = b ++ v := by
  have hblank {b : List Char} (hb : isBlankText b = true) : m ∉ b := by
    intro hmem
    rw [List.all_eq_true.mp hb m hmem] at hm
    cases hm
  generalize hs : x ++ m :: y = s at h
  induction h generalizing x with
  | blank hb => exact absurd (by simp [← hs]) (hblank hb)
  | @token b s t ts hb hspells ih =>
    rcases exists_of_append_eq hs.symm with ⟨w, rfl, _⟩ | ⟨w, rfl, hw⟩
    · exact absurd (by simp) (hblank hb)
    · rcases exists_of_append_eq hw with ⟨d, ht, rfl⟩ | ⟨d, rfl, hd⟩
      · exact ⟨[], t, ts, b, w, d, s, rfl, .blank hb, hspells, ht, rfl, rfl⟩
      · obtain ⟨before, t', after, u, a, c, v, rfl, hu, hv, ht', rfl, rfl⟩ := ih hd.symm
        exact ⟨t :: before, t', after, b ++ (t.text ++ u), a, c, v, rfl, .token hb hu, hv, ht', by simp, rfl⟩

theorem eq_of_append_eq (hu : Spells ts u) (hv : Spells ts v) (hx : ∀ c ∈ x.head?, isBlank c = false)
    (hy : ∀ c ∈ y.head?, isBlank c = false) (h : u ++ x = v ++ y) : u = v := by
  have hspan {b c x y : List Char} (hb : isBlankText b = true) (hc : isBlankText c = true)
      (hx : ∀ c ∈ x.head?, isBlank c = false) (hy : ∀ c ∈ y.head?, isBlank c = false)
      (h : b ++ x = c ++ y) : b = c := by
    rw [← Text.takeWhile_eq (List.all_eq_true.mp hb) hx, h,
      Text.takeWhile_eq (List.all_eq_true.mp hc) hy]
  induction hu generalizing v with
  | blank hb => exact hspan hb hv.of_nil hx hy h
  | @token b s t ts hb hs ih =>
    cases hv with
    | @token c w _ _ hc hw =>
      simp only [List.append_assoc] at h
      obtain rfl := hspan hb hc (t.isBlank_of_head_text _) (t.isBlank_of_head_text _) h
      have hrest := List.append_cancel_left (List.append_cancel_left h)
      rw [ih hw hrest]

end Spells

namespace StandsAt

variable {ts before earlier rest : List Token} {s : List Char} {t t' : Token} {i j : Nat}

theorem exists_words (h : StandsAt ts s before t i) : ∃ after, ts = before ++ t :: after := by
  obtain ⟨after, _, _, hts, _⟩ := h
  exact ⟨after, hts⟩

theorem end_le (h : StandsAt ts s before t i) (h' : StandsAt ts s (before ++ t :: rest) t' j) :
    i + size t.text ≤ j := by
  obtain ⟨after, u, v, _, hs, hu, _, rfl⟩ := h
  obtain ⟨after', u', v', _, hs', hu', _, rfl⟩ := h'
  obtain ⟨x, y, rfl, hx, hy⟩ := hu'.of_append
  cases hy with
  | @token b w _ _ hb hw =>
    have hsame : u ++ (t.text ++ v) = (x ++ b) ++ (t.text ++ (w ++ (t'.text ++ v'))) := by
      rw [← hs, hs']
      simp
    obtain rfl := hu.eq_of_append_eq (hx.append_blank hb) (t.isBlank_of_head_text _)
      (t.isBlank_of_head_text _) hsame
    simp only [Text.size_append]
    omega

/-- Two words that share a byte are the same word. -/
theorem unique (h : StandsAt ts s before t i) (h' : StandsAt ts s earlier t' j) (hle : i ≤ j)
    (hlt : j < i + size t.text) : before = earlier ∧ t = t' := by
  have hpos : size t'.text ≠ 0 := mt Text.size_eq_zero_iff.mp t'.text_ne_nil
  obtain ⟨after, hts⟩ := h.exists_words
  obtain ⟨after', hts'⟩ := h'.exists_words
  rcases exists_of_append_eq (hts.symm.trans hts') with ⟨ws, rfl, _⟩ | ⟨ws, rfl, hws⟩
  · have hend := h'.end_le h
    omega
  · cases ws with
    | nil => exact ⟨by simp, (List.cons.inj hws).1⟩
    | cons a ws =>
      obtain rfl : t = a := (List.cons.inj hws).1
      have hend := h.end_le h'
      omega

end StandsAt

end Trajectory
