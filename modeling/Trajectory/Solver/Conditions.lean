namespace Trajectory

/-- Values by name, each name once and in the order of the names. -/
@[ext]
structure Conditions (α : Type) where
  entries : List (String × α)
  ordered : entries.Pairwise fun e f => e.1 < f.1
deriving Repr, DecidableEq

namespace Conditions

variable {α : Type}

def empty : Conditions α := ⟨[], .nil⟩

/-- Puts an entry into its place, instead of one with the same name. -/
def insertInto (name : String) (value : α) : List (String × α) → List (String × α)
  | [] => [(name, value)]
  | e :: entries =>
    if name < e.1 then (name, value) :: e :: entries
    else if name == e.1 then (name, value) :: entries
    else e :: insertInto name value entries

theorem mem_of_mem_insertInto {name : String} {value : α} {entries : List (String × α)}
    {e : String × α} (h : e ∈ insertInto name value entries) : e = (name, value) ∨ e ∈ entries := by
  induction entries with
  | nil => exact .inl (List.mem_singleton.mp h)
  | cons first entries ih =>
    rw [insertInto] at h
    split at h
    · exact List.mem_cons.mp h
    split at h
    · exact (List.mem_cons.mp h).imp_right (List.mem_cons_of_mem first)
    · rcases List.mem_cons.mp h with rfl | h
      · exact .inr List.mem_cons_self
      · exact (ih h).imp_right (List.mem_cons_of_mem first)

theorem ordered_insertInto (name : String) (value : α) {entries : List (String × α)}
    (h : entries.Pairwise fun e f => e.1 < f.1) :
    (insertInto name value entries).Pairwise fun e f => e.1 < f.1 := by
  induction entries with
  | nil => exact List.pairwise_singleton _ _
  | cons first entries ih =>
    obtain ⟨hfirst, hentries⟩ := List.pairwise_cons.mp h
    rw [insertInto]
    split
    next hlt =>
      refine List.pairwise_cons.mpr ⟨fun e he => ?_, h⟩
      rcases List.mem_cons.mp he with rfl | he
      · exact hlt
      · exact String.lt_trans hlt (hfirst e he)
    next hlt =>
      split
      next heq =>
        rw [eq_of_beq heq]
        exact List.pairwise_cons.mpr ⟨hfirst, hentries⟩
      next hne =>
        have hafter : first.1 < name := by
          rw [← String.not_le]
          exact fun hle => hne (beq_iff_eq.mpr (String.le_antisymm hle (String.not_lt.mp hlt)))
        refine List.pairwise_cons.mpr ⟨fun e he => ?_, ih hentries⟩
        rcases mem_of_mem_insertInto he with rfl | he
        · exact hafter
        · exact hfirst e he

def insert (c : Conditions α) (name : String) (value : α) : Conditions α :=
  ⟨insertInto name value c.entries, ordered_insertInto name value c.ordered⟩

def ofList (entries : List (String × α)) : Conditions α :=
  entries.foldl (fun c e => c.insert e.1 e.2) empty

def get? (c : Conditions α) (name : String) : Option α :=
  (c.entries.find? fun e => e.1 == name).map Prod.snd

def isEmpty (c : Conditions α) : Bool := c.entries.isEmpty

end Conditions

end Trajectory
