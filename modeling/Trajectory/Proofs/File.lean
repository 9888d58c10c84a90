import Trajectory.File.Tree
import Trajectory.Outcome

namespace Trajectory

theorem fromUTF8_toUTF8 (s : String) : String.fromUTF8? s.toUTF8 = some s := by
  have hvalid : s.toUTF8.IsValidUTF8 := s.isValidUTF8
  rw [String.fromUTF8?, dif_pos hvalid]
  rfl

namespace FileTree

variable {t u : FileTree}

section Place

theorem directory_eq (h : u.working = t.working) (d : Directory) (name : String) :
    u.directory? d name = t.directory? d name := by
  have hdirectory : u.isDirectory (d.child name) = t.isDirectory (d.child name) := by
    unfold isDirectory
    rw [h]
  have hlinks : u.links = t.links := by
    unfold links
    rw [h]
  rw [directory?, directory?, hdirectory, hlinks]

theorem enter_eq_ok_iff {d e : Directory} {name : String} :
    t.enter d name = .ok e ↔ t.directory? d name = some e := by
  unfold enter
  cases t.directory? d name with
  | some e' => simp [pure, Except.pure]
  | none =>
    refine ⟨fun h => ?_, fun h => by cases h⟩
    obtain ⟨_, _, h⟩ := bind_eq_ok.mp h
    cases h

/-- Names lead to one place in all trees with one working directory. -/
theorem follow_eq_ok (h : u.working = t.working) {d : Directory} {names : List String}
    {r : Directory ⊕ Location} (hr : t.follow d names = .ok r) : u.follow d names = .ok r := by
  induction names generalizing d with
  | nil => exact hr
  | cons name names ih =>
    cases names with
    | nil =>
      rw [follow, directory_eq h]
      rw [follow] at hr
      exact hr
    | cons next names =>
      obtain ⟨e, henter, hlater⟩ := bind_eq_ok.mp hr
      refine bind_eq_ok.mpr ⟨e, ?_, ih hlater⟩
      rw [enter_eq_ok_iff, directory_eq h]
      exact enter_eq_ok_iff.mp henter

theorem locate_eq_ok (h : u.working = t.working) {p : Path} {l : Location}
    (hl : t.locate p = .ok l) : u.locate p = .ok l := by
  obtain ⟨r, hr, hplace⟩ := bind_eq_ok.mp hl
  have hsame : u.follow (if p.fromRoot then .root else u.working) p.names = .ok r := by
    rw [h]
    exact follow_eq_ok h hr
  exact bind_eq_ok.mpr ⟨r, hsame, hplace⟩

theorem target_eq_ok (h : u.working = t.working) {path : String} {l : Location}
    (hl : t.target path = .ok l) : u.target path = .ok l := by
  obtain ⟨p, hp, hl⟩ := bind_eq_ok.mp hl
  obtain ⟨l', hlocate, hl⟩ := bind_eq_ok.mp hl
  exact bind_eq_ok.mpr ⟨p, hp, bind_eq_ok.mpr ⟨l', locate_eq_ok h hlocate, hl⟩⟩

theorem write_eq (t : FileTree) (path content : String) :
    t.write path content = t.target path >>= t.store content := rfl

end Place

section Reading

def HasRoom (t : FileTree) (path : String) : Prop :=
  ∃ u, t.write path "" = .ok u ∧ ∀ device, u.find path ≠ .ok (.inl device)

/-- The path leads to a file with this content, or to a device, which keeps nothing. -/
def Keeps (t : FileTree) (path content : String) : Prop :=
  t.read path = .ok content ∨ ∃ device, t.find path = .ok (.inl device)

variable {path content : String} {l : Location}

theorem write_of_target (h : t.target path = .ok l) (hdevice : Device.at? l = none)
    (htakes : takesFile l = true) (content : String) :
    t.write path content = .ok (t.put l content.toUTF8) := by
  rw [write_eq, h]
  show t.store content l = _
  rw [store, hdevice]
  exact if_pos htakes

theorem find_of_target (h : t.target path = .ok l) (hworking : u.working = t.working) :
    u.find path = match Device.at? l, u.get? l with
      | some device, _ => .ok (.inl device)
      | none, some content => .ok (.inr content)
      | none, none => .error .notFound := by
  obtain ⟨p, hp, h⟩ := bind_eq_ok.mp h
  obtain ⟨l', hl, h⟩ := bind_eq_ok.mp h
  have hlocate := locate_eq_ok hworking hl
  cases hslash : p.endsInSlash with
  | true =>
    simp only [hslash, if_true] at h
    cases h
  | false =>
    simp only [hslash, Bool.false_eq_true, if_false] at h
    obtain ⟨_, hname, h⟩ := bind_eq_ok.mp h
    cases h
    unfold find
    rw [hp]
    show (u.locate p >>= _) = _
    rw [hlocate]
    show (Path.checkName l.name >>= _) = _
    rw [hname]
    cases Device.at? l with
    | some device =>
      rw [hslash]
      rfl
    | none =>
      cases u.get? l with
      | some content =>
        rw [hslash]
        rfl
      | none => rfl

theorem get_put (t : FileTree) (l : Location) (content : ByteArray) :
    (t.put l content).get? l = some content := by
  have hnone : (t.files.filter fun file => file.1 != l).find? (fun file => file.1 == l) = none := by
    rw [List.find?_eq_none]
    intro file hfile
    simpa using (List.mem_filter.mp hfile).2
  simp [get?, put, List.find?_append, hnone]

theorem find_put (h : t.target path = .ok l) (hdevice : Device.at? l = none) (content : ByteArray) :
    (t.put l content).find path = .ok (.inr content) := by
  have hfind := find_of_target h (rfl : (t.put l content).working = t.working)
  rwa [hdevice, get_put] at hfind

theorem get_put_of_ne {m : Location} (h : m ≠ l) (t : FileTree) (content : ByteArray) :
    (t.put l content).get? m = t.get? m := by
  have hother : (fun file : Location × ByteArray =>
      decide ((file.1 != l) = true ∧ (file.1 == m) = true)) = fun file => file.1 == m := by
    funext file
    by_cases hm : file.1 = m
    · simp [hm, h]
    · simp [hm]
  have hl : (l == m) = false := beq_false_of_ne (Ne.symm h)
  rw [get?, put, List.find?_append, List.find?_filter, hother]
  simp [get?, hl]

theorem kept_of_send {content : String} {device : Device} (h : t.send content device = .ok u) :
    u.working = t.working ∧ u.files = t.files := by
  cases device with
  | null | endless | standardInput | standardOutput | standardError =>
    cases h
    exact ⟨rfl, rfl⟩
  | full =>
    change (if content.isEmpty then Except.ok t else Except.error FileFault.noSpace) = _ at h
    split at h
    next =>
      cases h
      exact ⟨rfl, rfl⟩
    next => cases h
  | terminal => cases h

/-- What writing to a location does: a device gets the text, or a file holds it from then on. -/
inductive Stored (t u : FileTree) (content : String) (l : Location) : Prop where
  | sent {device : Device} (hdevice : Device.at? l = some device) (hsend : t.send content device = .ok u)
  | put (hdevice : Device.at? l = none) (htakes : takesFile l = true)
      (heq : u = t.put l content.toUTF8)

theorem stored_of_write (h : t.write path content = .ok u) :
    ∃ l, t.target path = .ok l ∧ Stored t u content l := by
  rw [write_eq] at h
  obtain ⟨l, htarget, hstore⟩ := bind_eq_ok.mp h
  refine ⟨l, htarget, ?_⟩
  unfold store at hstore
  split at hstore
  next device hdevice => exact .sent hdevice hstore
  next hdevice =>
    split at hstore
    next htakes => exact .put hdevice htakes (Except.ok.inj hstore).symm
    next => cases hstore

theorem keeps_of_write (h : t.write path content = .ok u) : u.Keeps path content := by
  obtain ⟨l, htarget, hstored⟩ := stored_of_write h
  cases hstored with
  | @sent device hdevice hsend =>
    have hfind := find_of_target htarget (kept_of_send hsend).1
    rw [hdevice] at hfind
    exact .inr ⟨device, hfind⟩
  | put hdevice _ heq =>
    have hfetch : u.fetch path = .ok content.toUTF8 :=
      bind_eq_ok.mpr ⟨_, heq ▸ find_put htarget hdevice _, rfl⟩
    refine .inl (bind_eq_ok.mpr ⟨_, hfetch, ?_⟩)
    rw [fromUTF8_toUTF8]
    rfl

theorem working_of_write (h : t.write path content = .ok u) : u.working = t.working := by
  obtain ⟨l, _, hstored⟩ := stored_of_write h
  cases hstored with
  | sent _ hsend => exact (kept_of_send hsend).1
  | put _ _ heq => rw [heq]; rfl

theorem writeFrom_of_ne {m : Location} (h : m ≠ l) (t : FileTree) (offset : Nat) (text : String) :
    (t.writeFrom l offset text).working = t.working ∧
      (t.writeFrom l offset text).get? m = t.get? m := by
  unfold writeFrom
  split
  next device _ =>
    cases hsend : t.send text device with
    | error fault => exact ⟨rfl, rfl⟩
    | ok u =>
      obtain ⟨hworking, hfiles⟩ := kept_of_send hsend
      have hget : u.get? m = t.get? m := by
        unfold get?
        rw [hfiles]
      exact ⟨hworking, hget⟩
  next => exact ⟨rfl, get_put_of_ne h t _⟩

theorem Keeps.writeFrom (h : t.Keeps path content) {m : Location} (hm : t.target path = .ok m)
    (hne : m ≠ l) (offset : Nat) (text : String) : (t.writeFrom l offset text).Keeps path content := by
  obtain ⟨hworking, hget⟩ := writeFrom_of_ne hne t offset text
  have hfind : (t.writeFrom l offset text).find path = t.find path := by
    rw [find_of_target hm hworking, find_of_target hm rfl, hget]
  have hfetch : (t.writeFrom l offset text).fetch path = t.fetch path := by
    unfold fetch
    rw [hfind]
  unfold Keeps FileTree.read
  rw [hfetch, hfind]
  exact h

/-- What is written to an open file goes over what was written at its path. -/
theorem fetch_writeFrom (h : t.write path content = .ok u) (hl : t.target path = .ok l)
    (hdevice : Device.at? l = none) (offset : Nat) (text : String) :
    (u.writeFrom l offset text).fetch path =
      .ok (overwrite content.toUTF8 offset text.toUTF8) := by
  obtain ⟨l', hl', hstored⟩ := stored_of_write h
  cases hl.symm.trans hl'
  cases hstored with
  | sent hsome _ => cases hdevice.symm.trans hsome
  | put _ _ heq =>
    have hwritten : u.writeFrom l offset text =
        u.put l (overwrite content.toUTF8 offset text.toUTF8) := by
      simp only [heq, writeFrom, hdevice, get_put, Option.getD_some]
    rw [hwritten]
    exact bind_eq_ok.mpr ⟨_, find_put (target_eq_ok (working_of_write h) hl) hdevice _, rfl⟩

theorem write_of_write_empty {fault : FileFault} (h : t.write path "" = .error fault) :
    t.write path content = .error fault := by
  rw [write_eq] at h ⊢
  cases htarget : t.target path with
  | error e =>
    rw [htarget] at h
    exact h
  | ok l =>
    rw [htarget] at h
    change t.store "" l = .error fault at h
    show t.store content l = .error fault
    unfold store at h ⊢
    split at h
    next device _ =>
      cases device with
      | terminal => exact h
      | null | endless | full | standardInput | standardOutput | standardError => cases h
    next =>
      split at h
      next => cases h
      next hplace =>
        rw [if_neg hplace]
        exact h

theorem target_of_hasRoom (h : t.HasRoom path) :
    ∃ l, t.target path = .ok l ∧ Device.at? l = none ∧ takesFile l = true := by
  obtain ⟨u, hempty, hfile⟩ := h
  obtain ⟨l, htarget, hstored⟩ := stored_of_write hempty
  cases hstored with
  | @sent device hdevice hsend =>
    have hfind := find_of_target htarget (kept_of_send hsend).1
    rw [hdevice] at hfind
    exact absurd hfind (hfile device)
  | put hdevice htakes _ => exact ⟨l, htarget, hdevice, htakes⟩

theorem hasRoom_of_target (h : t.target path = .ok l) (hdevice : Device.at? l = none)
    (htakes : takesFile l = true) : t.HasRoom path := by
  refine ⟨_, write_of_target h hdevice htakes "", fun device hfound => ?_⟩
  rw [find_put h hdevice] at hfound
  cases hfound

/-- Where a file can be made, any text can be written, and it reads as it was. -/
theorem write_of_hasRoom (h : t.HasRoom path) (content : String) :
    ∃ u, t.write path content = .ok u ∧ u.read path = .ok content := by
  obtain ⟨l, htarget, hdevice, htakes⟩ := target_of_hasRoom h
  have hwritten := write_of_target htarget hdevice htakes content
  refine ⟨_, hwritten, ?_⟩
  rcases keeps_of_write hwritten with hread | ⟨device, hfound⟩
  · exact hread
  · rw [find_put htarget hdevice] at hfound
    cases hfound

end Reading

end FileTree

end Trajectory
