/-
# A run from its arguments to its file

A run passes through stages, and each of them either fails with a cause or hands on a result:

| stage | fails | hands on |
| --- | --- | --- |
| the settings are loaded and overridden | with what is wrong with them | settings |
| they are validated | with the first condition they miss | the same settings |
| the mesh runs | never, on valid settings and links that can be made | the solver's heat map |
| the file is made | if it cannot be | the bytes of the heat map |

Only the last stage writes, so a failure before it leaves no trace; and what it writes depends on
the settings and the format alone, not on the schedule, on a comparison with the solver, or on how
much is printed. Main statement: `Request.perform_run`.
-/

import DiffusionMesh.Command.Perform
import DiffusionMesh.Proofs.Image.Writing
import DiffusionMesh.Proofs.Mesh.Refinement

namespace DiffusionMesh

/-! ### Writing a heat map -/

/-- **A writer with room for a heat map receives exactly its bytes.** -/
theorem HeatMap.writeInto_eq (m : HeatMap) (format : ImageFormat) {room : Nat}
    (h : (m.encode format).size ≤ room) : m.writeInto format room = ⟨m.encode format, .ok ()⟩ := by
  rw [m.writeInto_eq_extract, if_pos h, Array.extract_eq_self_of_le h]

/-! ### The mesh -/

/-- **A run on valid settings finds the solver's heat map**, whether it is compared with it or not,
and however the cells are scheduled. -/
theorem Config.exists_solution {c : Config} {m : Mesh} (hvalid : c.validate = .ok ())
    (hm : Mesh.assemble c = .ok m) :
    ∃ expected, c.solve = .ok expected ∧ ∀ schedule,
      (∃ outcome, c.runMesh schedule = .ok outcome ∧ outcome.heatMap = expected) ∧
      ∃ outcome, c.runVerified schedule = .ok outcome ∧ outcome.heatMap = expected := by
  have hsolve := solve_eq hvalid (Mesh.assembled hm).1
  refine ⟨_, hsolve, fun schedule => ?_⟩
  obtain ⟨outcome, hrun, hmap⟩ := runMesh_eq hvalid hm schedule
  have hcheck : outcome.heatMap.checkAgainst (c.fieldMap m.geometry) = .ok () := by
    rw [hmap, HeatMap.checkAgainst, HeatMap.diff_self]
  refine ⟨⟨outcome, hrun, hmap⟩, outcome, ?_, hmap⟩
  rw [runVerified, hsolve]
  simp only [bind, Except.bind, hrun, hcheck]
  rfl

namespace Command

variable {s : Surroundings} {path? : Option String} {overrides : Overrides} {o : RunOptions}
  {quiet : Bool} {c loaded : Config} {cause : Failure} {outcome : Outcome}

/-! ### The settings -/

theorem effectiveSettings_of_error {fault : Settings.LoadFault}
    (h : Config.ofFile s.files path? s.environment s.order = .error fault) :
    effectiveSettings s path? overrides = .error (.loading fault) := by
  rw [effectiveSettings, loadSettings, h]
  rfl

/-- The settings of the command line are put over the loaded ones, and then all are validated. -/
theorem effectiveSettings_of_ok (h : Config.ofFile s.files path? s.environment s.order = .ok loaded) :
    effectiveSettings s path? overrides =
      (overrides.apply loaded).validate.map fun _ => overrides.apply loaded := by
  rw [effectiveSettings, loadSettings, h]
  rfl

/-! ### The report -/

/-- A command that failed with a cause, and wrote nothing. -/
structure Report.FailsWith (r : Report) (cause : Failure) : Prop where
  complaint : r.complaint = some (.failure cause)
  written : r.written = none
  exitStatus : r.exitStatus ≠ 0

/-- A command that succeeded, with the file it wrote, if any. -/
structure Report.Succeeds (r : Report) (written : Option (String × Array UInt8)) : Prop where
  complaint : r.complaint = none
  written : r.written = written
  exitStatus : r.exitStatus = 0

theorem Report.failsWith {r : Report} (hcomplaint : r.complaint = some (.failure cause))
    (hwritten : r.written = none) : r.FailsWith cause := by
  refine ⟨hcomplaint, hwritten, ?_⟩
  rw [exitStatus, hcomplaint, Option.elim_some, Complaint.exitStatus]
  split <;> decide

theorem Report.succeeds {r : Report} {written : Option (String × Array UInt8)}
    (hcomplaint : r.complaint = none) (hwritten : r.written = written) : r.Succeeds written := by
  refine ⟨hcomplaint, hwritten, ?_⟩
  rw [exitStatus, hcomplaint, Option.elim_none]

/-- Settings that are refused end the run before anything is written. -/
theorem performRun_of_error (h : effectiveSettings s o.config o.overrides = .error cause) :
    (performRun s false quiet o).FailsWith cause := by
  rw [performRun, h]
  exact Report.failsWith rfl rfl

/-- A mesh that has run leaves its heat map in the file, if one is asked for. -/
theorem performRun_of_ok (h : effectiveSettings s o.config o.overrides = .ok c)
    (hrun : runMeshFor s o c = .ok outcome)
    (hcreate : ∀ path, o.output = some path → s.create path = .ok ()) :
    (performRun s false quiet o).Succeeds
      (o.output.map fun path => (path, outcome.heatMap.encode o.format)) := by
  rw [performRun, h]
  simp only [Bool.false_and, Bool.false_eq_true, if_false, hrun]
  cases houtput : o.output with
  | none => exact Report.succeeds rfl rfl
  | some path =>
    simp only [hcreate path houtput]
    exact Report.succeeds rfl rfl

/-- A file that cannot be made is not written. -/
theorem performRun_of_uncreatable (h : effectiveSettings s o.config o.overrides = .ok c)
    (hrun : runMeshFor s o c = .ok outcome) {path : String} (houtput : o.output = some path)
    {fault : WriteFault} (hcreate : s.create path = .error fault) :
    (performRun s false quiet o).FailsWith (.writing fault) := by
  rw [performRun, h]
  simp only [Bool.false_and, Bool.false_eq_true, if_false, hrun, houtput, hcreate]
  exact Report.failsWith rfl rfl

/-- A mesh of valid settings runs to the solver's heat map, once it has been assembled. -/
theorem exists_runMeshFor_of_assemble {m : Mesh} (hvalid : c.validate = .ok ())
    (hm : Mesh.assemble c = .ok m) (s : Surroundings) (o : RunOptions) :
    ∃ outcome, runMeshFor s o c = .ok outcome ∧ c.solve = .ok outcome.heatMap := by
  obtain ⟨expected, hsolve, hruns⟩ := Config.exists_solution hvalid hm
  obtain ⟨⟨plain, hplain, hmap⟩, verified, hverified, hmap'⟩ := hruns s.schedule
  rw [runMeshFor]
  split
  · exact ⟨verified, hverified, hmap' ▸ hsolve⟩
  · exact ⟨plain, hplain, hmap ▸ hsolve⟩

/-- The mesh of valid settings runs to the solver's heat map. -/
theorem exists_runMeshFor (hvalid : c.validate = .ok ())
    (hcapacity : c.linkCapacity ≤ Fabric.greatestCapacity) (s : Surroundings) (o : RunOptions) :
    ∃ outcome, runMeshFor s o c = .ok outcome ∧ c.solve = .ok outcome.heatMap := by
  obtain ⟨g, hg, -⟩ := Config.geometry_of_validate hvalid
  obtain ⟨m, hm⟩ := Mesh.exists_assemble hg hcapacity
  exact exists_runMeshFor_of_assemble hvalid hm s o

/-- **A run from its arguments to its file.** Settings that cannot be loaded, or are refused, end it
with that failure, and nothing is written. Any others are run to the end: the file, if one is asked
for and can be made, then holds the solver's heat map for the settings as they were overridden, in
the format asked for, byte by byte what the writer of that format gives. This is so in all
surroundings, and whatever else the arguments ask for. -/
theorem Request.perform_run {args : List String}
    (h : Request.ofArguments args = .command ⟨false, quiet, .run o⟩) (s : Surroundings) :
    let report := (Request.ofArguments args).perform s
    (∀ fault, Config.ofFile s.files o.config s.environment s.order = .error fault →
      report.FailsWith (.loading fault)) ∧
    ∀ loaded, Config.ofFile s.files o.config s.environment s.order = .ok loaded →
      let c : Config := { loaded with
        cells := o.overrides.cells.getD loaded.cells
        iterations := o.overrides.iterations.getD loaded.iterations
        messageWords := o.overrides.messageWords.getD loaded.messageWords }
      (∀ cause, c.validate = .error cause → report.FailsWith cause) ∧
      (c.validate = .ok () → c.linkCapacity ≤ Fabric.greatestCapacity →
        ∃ expected, c.solve = .ok expected ∧
          ((∀ path, o.output = some path → s.create path = .ok ()) →
            report.Succeeds (o.output.map fun path => (path, expected.encode o.format))) ∧
          (∀ path fault, o.output = some path → s.create path = .error fault →
            report.FailsWith (.writing fault)) ∧
          ∀ room, (expected.encode o.format).size ≤ room →
            expected.writeInto o.format room = ⟨expected.encode o.format, .ok ()⟩) := by
  intro report
  have hreport : report = performRun s false quiet o := congrArg (Request.perform s) h
  rw [hreport]
  constructor
  · exact fun fault hfault => performRun_of_error (effectiveSettings_of_error hfault)
  intro loaded hloaded c
  have hsettings : effectiveSettings s o.config o.overrides = c.validate.map fun _ => c :=
    effectiveSettings_of_ok hloaded
  constructor
  · intro cause hcause
    refine performRun_of_error ?_
    rw [hsettings, hcause]
    rfl
  · intro hvalid hcapacity
    rw [hvalid] at hsettings
    obtain ⟨outcome, hrun, hsolve⟩ := exists_runMeshFor hvalid hcapacity s o
    exact ⟨outcome.heatMap, hsolve, performRun_of_ok hsettings hrun,
      fun _ _ houtput hcreate => performRun_of_uncreatable hsettings hrun houtput hcreate,
      fun _ => outcome.heatMap.writeInto_eq o.format⟩

/-- Four cells with tiles of side two, written as a table after five iterations. -/
theorem Request.perform_run_square :
    let args := ["run", "--cells", "4", "-m", "3", "-i", "5", "-q", "-o", "heat.csv", "-f", "csv"]
    let s : Surroundings := ⟨fun _ => none, [], fun _ => .ok (), [3, 1], .asWritten⟩
    let c : Config := { cells := 4, messageWords := 3, iterations := 5 }
    ∃ expected, c.solve = .ok expected ∧ ((Request.ofArguments args).perform s).Succeeds
      (some ("heat.csv", expected.encode .csv)) := by
  intro args s c
  have hread : Request.ofArguments args = .command ⟨false, true, .run
      { overrides := ⟨some 4, some 5, some 3⟩, output := some "heat.csv", format := .csv }⟩ := by
    decide +kernel
  obtain ⟨-, hloaded⟩ := perform_run hread s
  obtain ⟨-, hvalid⟩ := hloaded {} rfl
  obtain ⟨expected, hsolve, hwritten, -⟩ := hvalid (by decide) (by decide)
  exact ⟨expected, hsolve, hwritten fun _ _ => rfl⟩

end Command
end DiffusionMesh
