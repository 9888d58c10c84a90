import Trajectory.Proofs.File
import Trajectory.Proofs.Record
import Trajectory.Proofs.Solver.Along
import Trajectory.Proofs.Solver.Protocol
import Trajectory.Solver.Saving

namespace Trajectory

namespace Point

variable {α : Type} [Numeral α] {p : Point α} {later : List (Point α)}

/-- The table of points that begin with one: its names, then the values of each. -/
def table (p : Point α) (later : List (Point α)) : List (List (List Char)) :=
  p.names.map String.toList :: (p :: later).map valueFields

theorem length_valueFields (q : Point α) : q.valueFields.length = q.values.length := by
  simp [valueFields]

theorem exists_written (hnames : p.names ≠ [])
    (hsizes : ∀ q ∈ p :: later, q.values.length = p.names.length) :
    ∃ text : String, Record.write (records (p :: later)) = .ok text.toList ∧
      Record.read? text.toList = some (table p later) := by
  have hlengths : ∀ r ∈ (p :: later).map valueFields,
      r.length = (p.names.map String.toList).length := by
    intro r hr
    obtain ⟨q, hq, rfl⟩ := List.mem_map.mp hr
    rw [length_valueFields, List.length_map, hsizes q hq]
  have hfilled : ∀ r ∈ table p later, r ≠ [] := by
    have hpos : 0 < p.names.length := List.length_pos_iff.mpr hnames
    intro r hr
    rw [← List.length_pos_iff]
    rcases List.mem_cons.mp hr with rfl | hr
    · rwa [List.length_map]
    · rwa [hlengths r hr, List.length_map]
  refine ⟨String.ofList ((table p later).flatMap Record.writeLine), ?_, ?_⟩
  · rw [String.toList_ofList]
    exact Record.write_of_equal hlengths
  · rw [String.toList_ofList]
    exact Record.read_lines hfilled

theorem save_of_written {points : List (Point α)} {text : String}
    (h : Record.write (records points) = .ok text.toList) (files : FileTree) (file : String) :
    save points files file = (files.write file text).mapError TableFault.file := by
  have htext : String.ofList text.toList = text := String.ofList_toList
  unfold save
  rw [h]
  cases hempty : files.write file "" with
  | error fault =>
    rw [FileTree.write_of_write_empty hempty]
    rfl
  | ok created =>
    show (files.write file (String.ofList text.toList)).mapError TableFault.file = _
    rw [htext]

theorem save_of_unequal {q : Point α} (hq : q ∈ p :: later)
    (hsize : q.values.length ≠ p.names.length) (files : FileTree) (file : String) :
    (∃ fault, files.write file "" = .error fault ∧
        save (p :: later) files file = .error (.file fault)) ∨
      ∃ given, given ≠ p.names.length ∧
        save (p :: later) files file = .error (.lengths given p.names.length) := by
  cases hempty : files.write file "" with
  | error fault =>
    refine .inl ⟨fault, rfl, ?_⟩
    unfold save
    rw [hempty]
    rfl
  | ok created =>
    have hfields : q.valueFields ∈ (p :: later).map valueFields := List.mem_map_of_mem hq
    have hother : q.valueFields.length ≠ (p.names.map String.toList).length := by
      rwa [length_valueFields, List.length_map]
    obtain ⟨given, hgiven, herror⟩ := Record.write_of_unequal hfields hother
    rw [List.length_map] at hgiven herror
    refine .inr ⟨given, hgiven, ?_⟩
    unfold save
    rw [hempty]
    show (Record.write (records (p :: later)) >>= _) = _
    rw [records, herror]
    rfl

end Point

section Logged

variable {level : LevelFilter} {log : Log} {line : LogLine}

theorem Log.ceiling_add (log : Log) (line : LogLine) : (log.add line).ceiling = log.ceiling := by
  unfold Log.add
  split <;> rfl

/-- What a log file gets for one more line, if it is let through. -/
def LogFile.told (f : LogFile) (level ceiling : LevelFilter) (line : LogLine) : String :=
  if ceiling.admits line.level && level.admits line.level then f.entry f.written line else ""

theorem LogFile.pending_add {f : LogFile} (h : f.written = log.lines.length) :
    f.pending level (log.add line) = f.told level log.ceiling line := by
  have hnone : log.lines.reverse.zipIdx.drop f.written = [] := by simp [h]
  unfold LogFile.pending LogFile.told Log.add
  cases log.ceiling.admits line.level with
  | false => simp [hnone]
  | true =>
    have hnew : (log.lines.reverse ++ [line]).zipIdx.drop f.written = [(line, f.written)] := by
      simp [h, List.zipIdx_append]
    cases hlevel : level.admits line.level with
    | false => simp [hnew, hlevel]
    | true => simp [hnew, hlevel]

theorem Logging.file?_flushed (l : Logging) (log : Log) :
    (l.flushed log).file? = l.file?.map fun f => (f.1, f.2.advance f.1 log) := by
  cases l with
  | vacant entry => rfl
  | taken logger => simp [Logging.flushed, Logging.file?, Function.comp_def]

end Logged

namespace Session

variable {α μ : Type} [Scalar α] [Numeral α]

/-- What a run returns is what it stores, and all of its points show the same names. -/
theorem stored_of_run {calls fuel d : Nat} {adaptive : Bool} {points : List (Point α)}
    {w v : World (protocol α μ)} (hidle : w.state.solver.running = false)
    (h : run (Delivery.deliver (answer α μ) calls d) fuel adaptive w = .ok (.ok points) v) :
    v.state.solver.result = points ∧ ∃ p later, points = p :: later ∧ p.names ≠ [] ∧
      ∀ q ∈ points, q.Shows p.names := by
  have hpublish : Delivery.Frame.Publishes WhileRunning d (Delivery.deliver (answer α μ) calls d) :=
    deliver_keeps calls d
  cases opened_of_run hidle h with
  | refused herror => cases herror
  | @begun setup c point stop n told stepped ended hprepare hstart hpoint htell hthrough hconclude
      hreleased =>
    obtain ⟨later, hpoints, hsteps⟩ := steps_of_stepThrough hthrough
    obtain ⟨hheld, _⟩ := tells_of_steps hpublish rfl htell hsteps
    obtain ⟨_, _, herror, _⟩ | ⟨hresult, _, hstored, _⟩ :=
      conclude_ends hpublish hheld.running hconclude
    · cases herror
    · cases hresult
      obtain ⟨_, hshows⟩ := shows_of_stepThrough hpoint hthrough
      have hnames : point.names = pointNames stop.controller :=
        (hshows point (by rw [hpoints]; exact List.mem_cons_self)).1
      refine ⟨by rw [hreleased]; exact hstored, point, later, hpoints, ?_, ?_⟩
      · rw [hnames]
        exact List.cons_ne_nil _ _
      · rw [hnames]
        exact hshows

/-- The line that tells of saved points. -/
def savedLine (points : List (Point α)) (file : String) : LogLine :=
  ⟨.info, s!"{points.length} points saved to {file}"⟩

/-- The world with a saved file. -/
def saved (w : World (protocol α μ)) (file : String) (files : FileTree) : World (protocol α μ) :=
  { w with
    state := { w.state with files, logging := w.state.logging.flushed w.log }
    log := w.log.add (savedLine w.state.solver.result file) }

variable {file : String} {w : World (protocol α μ)}

omit [Scalar α] in
theorem save_eq (file : String) (w : World (protocol α μ)) : save file w =
    match Point.save w.state.solver.result (filesIn w) file with
    | .error fault => .ok (.error (.table fault)) (flushed w)
    | .ok files => .ok (.ok ()) (saved w file files) := by
  have hget : (Act.getState : Action α μ (Session α μ)) (flushed w) = .ok (flushed w).state (flushed w) :=
    rfl
  refine (Act.bind_of_ok (flushLog_eq w)).trans ((Act.bind_of_ok hget).trans ?_)
  have hresult : (flushed w).state.solver.result = w.state.solver.result := rfl
  rw [hresult]
  cases Point.save w.state.solver.result (filesIn w) file with
  | error fault => rfl
  | ok files => rfl

omit [Scalar α] in
theorem save_of_ok {files : FileTree}
    (h : Point.save w.state.solver.result (filesIn w) file = .ok files) :
    save file w = .ok (.ok ()) (saved w file files) := by
  rw [save_eq, h]

omit [Scalar α] in
theorem save_eq_ok_iff {v : World (protocol α μ)} : save file w = .ok (.ok ()) v ↔
    ∃ files, Point.save w.state.solver.result (filesIn w) file = .ok files ∧
      v = saved w file files := by
  constructor
  · intro h
    rw [save_eq] at h
    split at h
    next => cases h
    next files hsave =>
      cases h
      exact ⟨files, hsave, rfl⟩
  · rintro ⟨files, hsave, rfl⟩
    exact save_of_ok hsave

/-- The logger writes to the file at a path. -/
def LogsTo (w : World (protocol α μ)) (file : String) : Prop :=
  ∃ level f, w.state.logging.file? = some (level, f) ∧ w.state.files.target file = .ok f.location

variable {before files : FileTree} {text : String}

omit [Scalar α] [Numeral α] in
theorem keeps_of_saved (hwrite : before.write file text = .ok files)
    (hother : ¬ LogsTo (saved w file files) file) :
    (filesIn (saved w file files)).Keeps file text := by
  have hkeeps := FileTree.keeps_of_write hwrite
  have hworking := FileTree.working_of_write hwrite
  obtain ⟨m, hm, _⟩ := bind_eq_ok.mp hwrite
  have htarget := FileTree.target_eq_ok hworking hm
  unfold filesIn Logging.flush
  split
  next => exact hkeeps
  next level f hfile =>
    refine hkeeps.writeFrom htarget (fun hsame => hother ⟨level, f, hfile, ?_⟩) _ _
    rw [← hsame]
    exact htarget

omit [Scalar α] [Numeral α] in
/-- The logger's own file gets the line that tells of the saving, over what was saved. -/
theorem fetch_of_saved {level : LevelFilter} {f : LogFile}
    (hwrite : before.write file text = .ok files)
    (hfile : (saved w file files).state.logging.file? = some (level, f))
    (htarget : files.target file = .ok f.location) (hdevice : Device.at? f.location = none) :
    (filesIn (saved w file files)).fetch file = .ok (FileTree.overwrite text.toUTF8 f.offset
      (f.told level w.log.ceiling (savedLine w.state.solver.result file)).toUTF8) := by
  have hwritten : f.written = w.log.lines.length := by
    have hflushed : (w.state.logging.flushed w.log).file? = some (level, f) := hfile
    rw [Logging.file?_flushed] at hflushed
    obtain ⟨⟨level', f'⟩, _, hadvance⟩ := Option.map_eq_some_iff.mp hflushed
    cases hadvance
    rfl
  have hbefore := FileTree.target_eq_ok (FileTree.working_of_write hwrite).symm htarget
  have hfiles : filesIn (saved w file files) =
      files.writeFrom f.location f.offset (f.pending level (saved w file files).log) := by
    unfold filesIn Logging.flush
    rw [hfile]
    rfl
  rw [hfiles, FileTree.fetch_writeFrom hwrite hbefore hdevice]
  have hpending : f.pending level (saved w file files).log = _ := LogFile.pending_add hwritten
  rw [hpending]

end Session

end Trajectory
