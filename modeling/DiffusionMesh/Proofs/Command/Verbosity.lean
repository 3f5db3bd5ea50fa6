/-
# What a run with much to say does otherwise

With `--verbose` a run also prints its effective settings, as a document. The document is made
between the checks of the settings and the run, and settings that no document can hold end the run
there:

| the effective settings | without `--verbose` | with `--verbose` |
| --- | --- | --- |
| cannot be loaded, or are refused | fails | fails in the same way |
| valid, `link_capacity` below `2⁶³` | runs | prints them, and runs in the same way |
| valid, `link_capacity` at least `2⁶³`, one cell | runs, and writes its file | fails |
| valid, `link_capacity` at least `2⁶³`, more cells | is brought down by the first link | fails |

`validate` bounds the length of a message, so of the settings that it accepts only the capacity can
be too great for a document (`isWritable_iff`). With `--quiet` nothing is printed either way, and
the document is not made. How a run ends depends neither on what it prints nor on the schedule of
its cells (`performRun_concludes`). Main statement: `Request.verbose_outcome`.
-/

import DiffusionMesh.Proofs.Command.EndToEnd
import DiffusionMesh.Proofs.Mesh.Construction
import DiffusionMesh.Proofs.Settings.Validation

namespace DiffusionMesh

/-! ### Settings that a document holds -/

namespace Config

variable {c : Config}

/-- The messages of valid settings are short. -/
theorem messageWords_le (hvalid : c.validate = .ok ()) : c.messageWords.toNat ≤ 4097 := by
  obtain ⟨⟨k, hk⟩, -, hside, -⟩ := validate_eq_ok_iff.1 hvalid
  have hroot : 1 ≤ Nat.sqrt c.cells.toNat := by
    rw [hk, Nat.le_sqrt]
    exact Nat.one_le_two_pow.trans (Nat.pow_le_pow_left (by decide) k)
  rw [fullSide] at hside
  have hlength := (Nat.le_mul_of_pos_left (c.messageWords.toNat - 1) hroot).trans hside
  omega

/-- **A document holds valid settings unless their links are too long for it.** -/
theorem isWritable_iff (hvalid : c.validate = .ok ()) :
    c.isWritable = true ↔ c.linkCapacity < 0x8000000000000000 := by
  have hlength : c.messageWords < 0x8000000000000000 :=
    UInt64.lt_iff_toNat_lt.2 (Nat.lt_of_le_of_lt (messageWords_le hvalid) (by decide))
  simp [isWritable, hlength]

end Config

namespace Command

variable {s : Surroundings} {o : RunOptions} {quiet : Bool} {c : Config} {cause : Failure}

/-- Settings are printed unless no document can hold them. -/
theorem settingsLog_of_valid (hvalid : c.validate = .ok ()) :
    (c.linkCapacity < 0x8000000000000000 → ∃ log, settingsLog c = .ok log) ∧
    (0x8000000000000000 ≤ c.linkCapacity → settingsLog c = .error .unwritableSettings) := by
  have hwritable := Config.isWritable_iff hvalid
  constructor
  · intro hfits
    simp [settingsLog, Config.document?, hwritable.2 hfits]
  · intro hlong
    have hnot : ¬ c.isWritable = true := fun h => UInt64.not_lt.2 hlong (hwritable.1 h)
    simp [settingsLog, Config.document?, hnot]

/-- The effective settings are valid. -/
theorem validate_of_effectiveSettings {path? : Option String} {overrides : Overrides}
    (h : effectiveSettings s path? overrides = .ok c) : c.validate = .ok () := by
  cases hloaded : Config.ofFile s.files path? s.environment s.order with
  | error fault =>
    rw [effectiveSettings_of_error hloaded] at h
    cases h
  | ok loaded =>
    rw [effectiveSettings_of_ok hloaded] at h
    cases hvalid : (overrides.apply loaded).validate with
    | error cause =>
      rw [hvalid] at h
      cases h
    | ok =>
      rw [hvalid] at h
      exact Except.ok.inj h ▸ hvalid

/-! ### How a run ends -/

/-- How a run on valid settings ends: it is brought down by a link that is too long, or it is
through and has the solver's heat map for its file. -/
structure Report.Concludes (r : Report) (s : Surroundings) (o : RunOptions) (c : Config) :
    Prop where
  broken : 1 < c.cells → Fabric.greatestCapacity < c.linkCapacity →
    r.FailsWith (.linkTooLong c.linkCapacity)
  through : ¬ (1 < c.cells ∧ Fabric.greatestCapacity < c.linkCapacity) →
    ∃ expected, c.solve = .ok expected ∧
      ((∀ path, o.output = some path → s.create path = .ok ()) →
        r.Succeeds (o.output.map fun path => (path, expected.encode o.format))) ∧
      ∀ path fault, o.output = some path → s.create path = .error fault →
        r.FailsWith (.writing fault)

/-- Two reports tell the same, the printed lines aside. -/
structure Report.Agrees (r r' : Report) : Prop where
  complaint : r.complaint = r'.complaint
  written : r.written = r'.written
  exitStatus : r.exitStatus = r'.exitStatus

/-- Either the file that a run asks for can be made, or there is one that cannot. -/
theorem creatable_or (s : Surroundings) (o : RunOptions) :
    (∀ path, o.output = some path → s.create path = .ok ()) ∨
    ∃ path fault, o.output = some path ∧ s.create path = .error fault := by
  refine or_iff_not_imp_left.2 fun h => ?_
  push Not at h
  obtain ⟨path, houtput, hne⟩ := h
  cases hcreate : s.create path with
  | ok => exact absurd hcreate hne
  | error fault => exact ⟨path, fault, houtput, hcreate⟩

namespace Report

variable {r r' : Report}

theorem agrees (hcomplaint : r.complaint = r'.complaint) (hwritten : r.written = r'.written) :
    r.Agrees r' :=
  ⟨hcomplaint, hwritten, by rw [Report.exitStatus, Report.exitStatus, hcomplaint]⟩

theorem Agrees.refl (r : Report) : r.Agrees r := agrees rfl rfl

theorem Agrees.trans {r'' : Report} (h : r.Agrees r') (h' : r'.Agrees r'') : r.Agrees r'' :=
  agrees (h.complaint.trans h'.complaint) (h.written.trans h'.written)

theorem FailsWith.agrees (h : r.FailsWith cause) (h' : r'.FailsWith cause) : r.Agrees r' :=
  Report.agrees (h.complaint.trans h'.complaint.symm) (h.written.trans h'.written.symm)

theorem Succeeds.agrees {written : Option (String × Array UInt8)} (h : r.Succeeds written)
    (h' : r'.Succeeds written) : r.Agrees r' :=
  Report.agrees (h.complaint.trans h'.complaint.symm) (h.written.trans h'.written.symm)

/-- **The settings and the files that can be made decide how a run ends.** -/
theorem Concludes.agrees (h : r.Concludes s o c) (h' : r'.Concludes s o c) : r.Agrees r' := by
  by_cases hlong : 1 < c.cells ∧ Fabric.greatestCapacity < c.linkCapacity
  · exact (h.broken hlong.1 hlong.2).agrees (h'.broken hlong.1 hlong.2)
  · obtain ⟨expected, hsolve, hmade, hunmade⟩ := h.through hlong
    obtain ⟨expected', hsolve', hmade', hunmade'⟩ := h'.through hlong
    obtain rfl := Except.ok.inj (hsolve.symm.trans hsolve')
    rcases creatable_or s o with hcreate | ⟨path, fault, houtput, hcreate⟩
    · exact (hmade hcreate).agrees (hmade' hcreate)
    · exact (hunmade _ _ houtput hcreate).agrees (hunmade' _ _ houtput hcreate)

/-- A run on valid settings is not ended by what cannot be printed. -/
theorem Concludes.complaint_ne (h : r.Concludes s o c) :
    r.complaint ≠ some .unwritableSettings := by
  by_cases hlong : 1 < c.cells ∧ Fabric.greatestCapacity < c.linkCapacity
  · simp [(h.broken hlong.1 hlong.2).complaint]
  · obtain ⟨expected, -, hmade, hunmade⟩ := h.through hlong
    rcases creatable_or s o with hcreate | ⟨path, fault, houtput, hcreate⟩
    · simp [(hmade hcreate).complaint]
    · simp [(hunmade _ _ houtput hcreate).complaint]

end Report

/-- The mesh of valid settings runs to the solver's heat map, or cannot be wired. -/
theorem runMeshFor_of_valid (hvalid : c.validate = .ok ()) (s : Surroundings) (o : RunOptions) :
    (1 < c.cells ∧ Fabric.greatestCapacity < c.linkCapacity →
      runMeshFor s o c = .error (.linkTooLong c.linkCapacity)) ∧
    (¬ (1 < c.cells ∧ Fabric.greatestCapacity < c.linkCapacity) →
      ∃ outcome, runMeshFor s o c = .ok outcome ∧ c.solve = .ok outcome.heatMap) := by
  obtain ⟨g, hg, -⟩ := Config.geometry_of_validate hvalid
  have houtcome := Mesh.assemble_outcome hg
  constructor
  · intro hlong
    rw [if_pos hlong] at houtcome
    cases hm : Mesh.assemble c with
    | ok m =>
      rw [hm] at houtcome
      cases houtcome
    | error cause =>
      rw [hm] at houtcome
      obtain rfl : cause = .linkTooLong c.linkCapacity := Except.error.inj houtcome
      have hrun : c.runMesh s.schedule = .error (.linkTooLong c.linkCapacity) := by
        rw [Config.runMesh, Mesh.create, hvalid]
        simp only [bind, Except.bind, hm]
      have hsolve := Config.solve_eq hvalid hg
      rw [runMeshFor, Config.runVerified, hsolve]
      simp only [bind, Except.bind, hrun, ite_self]
  · intro hshort
    rw [if_neg hshort] at houtcome
    cases hm : Mesh.assemble c with
    | error cause =>
      rw [hm] at houtcome
      cases houtcome
    | ok m => exact exists_runMeshFor_of_assemble hvalid hm s o

/-- **How a run on valid settings ends**, with nothing to say besides what it does. -/
theorem performRun_concludes (h : effectiveSettings s o.config o.overrides = .ok c) :
    (performRun s false quiet o).Concludes s o c where
  broken hcells hlong := by
    have hrun := (runMeshFor_of_valid (validate_of_effectiveSettings h) s o).1 ⟨hcells, hlong⟩
    rw [performRun, h]
    simp only [Bool.false_and, Bool.false_eq_true, if_false, hrun]
    exact Report.failsWith rfl rfl
  through hshort := by
    obtain ⟨outcome, hrun, hsolve⟩ :=
      (runMeshFor_of_valid (validate_of_effectiveSettings h) s o).2 hshort
    exact ⟨outcome.heatMap, hsolve, performRun_of_ok h hrun,
      fun _ _ houtput hcreate => performRun_of_uncreatable h hrun houtput hcreate⟩

/-- The schedule does not show in how a run ends. -/
theorem performRun_schedule (s : Surroundings) (schedule : List Nat) (quiet : Bool)
    (o : RunOptions) :
    (performRun { s with schedule } false quiet o).Agrees (performRun s false quiet o) := by
  cases h : effectiveSettings s o.config o.overrides with
  | error cause =>
    have h' : effectiveSettings { s with schedule } o.config o.overrides = .error cause := h
    exact (performRun_of_error h').agrees (performRun_of_error h)
  | ok c =>
    have hthere : (performRun { s with schedule } false quiet o).Concludes s o c :=
      let ⟨broken, through⟩ := performRun_concludes (s := { s with schedule }) h
      ⟨broken, through⟩
    exact hthere.agrees (performRun_concludes h)

/-! ### With much to say -/

/-- A quiet run says nothing, however much it has to say. -/
theorem performRun_quiet : performRun s true true o = performRun s false true o := rfl

theorem performRun_verbose_of_error (h : effectiveSettings s o.config o.overrides = .error cause) :
    performRun s true false o = performRun s false false o := by
  rw [performRun, performRun, h]

/-- The settings are printed before anything else. -/
theorem performRun_verbose_of_ok {log : List Line}
    (h : effectiveSettings s o.config o.overrides = .ok c) (hlog : settingsLog c = .ok log) :
    performRun s true false o =
      { performRun s false false o with lines := log ++ (performRun s false false o).lines } := by
  rw [performRun, performRun, h]
  simp only [Bool.not_false, Bool.and_true, if_true, hlog, Bool.false_eq_true, if_false]
  cases runMeshFor s o c with
  | error cause => simp
  | ok outcome =>
    cases o.output with
    | none => simp
    | some path => cases hcreate : s.create path <;> simp [hcreate]

/-- Settings that cannot be printed end the run. -/
theorem performRun_verbose_of_unwritable {complaint : Complaint}
    (h : effectiveSettings s o.config o.overrides = .ok c)
    (hlog : settingsLog c = .error complaint) :
    performRun s true false o = { complaint := some complaint } := by
  rw [performRun, h]
  simp only [Bool.not_false, Bool.and_true, if_true, hlog]

namespace Request

/-- The same request, with much to say. -/
def verbosely : Request → Request
  | .command invocation => .command { invocation with verbose := true }
  | .help topic long => .help topic long
  | .version name => .version name
  | .misuse => .misuse

/-- A run, neither quiet nor with much to say, whose effective settings no document can hold. -/
def Unwritable (r : Request) (s : Surroundings) : Prop :=
  ∃ o c, r = .command ⟨false, false, .run o⟩ ∧
    effectiveSettings s o.config o.overrides = .ok c ∧ 0x8000000000000000 ≤ c.linkCapacity

/-- The flag is read under its name and under its letter. -/
theorem readArgument_verbose {flag : String} (h : flag ∈ ["--verbose", "-v"]) :
    programGrammar.readArgument flag {} = .next none { verbose := true } := by
  rcases List.mem_pair.1 h with rfl | rfl
  · have hlooks : Grammar.looksLikeOption "--verbose" = true := by decide +kernel
    have hbody : "--verbose".toList = '-' :: '-' :: "verbose".toList := by decide +kernel
    have hname : "verbose".toList.takeWhile (· != '=') = "verbose".toList := by decide +kernel
    have hvalue : "verbose".toList.dropWhile (· != '=') = [] := by decide +kernel
    rw [Grammar.readArgument, if_pos hlooks, hbody]
    simp only [hname, hvalue, Grammar.readName, String.ofList_toList]
    rfl
  · have hlooks : Grammar.looksLikeOption "-v" = true := by decide +kernel
    rw [Grammar.readArgument, if_pos hlooks]
    rfl

/-- Behind the flag the arguments are read as they would be without it. -/
theorem read_verbose {flag : String} (h : flag ∈ ["--verbose", "-v"]) (rest : List String) :
    programGrammar.read none {} (flag :: rest) =
      programGrammar.read none { verbose := true } rest := by
  have hname : programGrammar.subcommands.contains flag = false := by
    rcases List.mem_pair.1 h with rfl | rfl <;> decide
  have hplain : flag ≠ "--" := by
    rcases List.mem_pair.1 h with rfl | rfl <;> decide
  rw [Grammar.read]
  simp only [hname, hplain, readArgument_verbose h, Bool.false_eq_true, if_false]

/-- `--verbose` before the name of the command asks for the same, with much to say. -/
theorem ofArguments_verbose {flag : String} (h : flag ∈ ["--verbose", "-v"]) (rest : List String) :
    ofArguments (flag :: "run" :: rest) = (ofArguments ("run" :: rest)).verbosely := by
  have hrun (draft : Draft) :
      programGrammar.read none draft ("run" :: rest) = .subcommand draft "run" rest := rfl
  rw [ofArguments, ofArguments, read_verbose h, hrun, hrun]
  change requestOf _ "run" rest = (requestOf _ "run" rest).verbosely
  rw [requestOf, requestOf]
  cases (grammarOf "run").read none {} rest <;> rfl

/-- **What is printed does not show in the outcome**, unless the settings cannot be printed. -/
theorem verbosely_perform (r : Request) (s : Surroundings) (h : ¬ r.Unwritable s) :
    ∃ log, r.verbosely.perform s =
      { r.perform s with lines := log ++ (r.perform s).lines } := by
  match r with
  | .help _ _ | .version _ | .misuse | .command ⟨_, _, .inspect _⟩ |
    .command ⟨_, _, .completions _⟩ | .command ⟨true, _, .run _⟩ => exact ⟨[], rfl⟩
  | .command ⟨false, true, .run o⟩ => exact ⟨[], performRun_quiet⟩
  | .command ⟨false, false, .run o⟩ =>
    change ∃ log, performRun s true false o = _
    cases hsettings : effectiveSettings s o.config o.overrides with
    | error cause => exact ⟨[], performRun_verbose_of_error hsettings⟩
    | ok c =>
      have hfits : c.linkCapacity < 0x8000000000000000 :=
        UInt64.not_le.1 fun hlong => h ⟨o, c, rfl, hsettings, hlong⟩
      obtain ⟨log, hlog⟩ := (settingsLog_of_valid (validate_of_effectiveSettings hsettings)).1 hfits
      exact ⟨log, performRun_verbose_of_ok hsettings hlog⟩

/-- A run whose settings cannot be printed fails, and writes nothing. -/
theorem verbosely_perform_unwritable {r : Request} (h : r.Unwritable s) :
    r.verbosely.perform s = { complaint := some .unwritableSettings } := by
  obtain ⟨o, c, rfl, hsettings, hlong⟩ := h
  have hlog := (settingsLog_of_valid (validate_of_effectiveSettings hsettings)).2 hlong
  exact performRun_verbose_of_unwritable hsettings hlog

/-- The same run does not fail for that reason if it has less to say. -/
theorem complaint_ne_of_unwritable {r : Request} (h : r.Unwritable s) :
    (r.perform s).complaint ≠ some .unwritableSettings := by
  obtain ⟨o, c, rfl, hsettings, -⟩ := h
  exact (performRun_concludes hsettings).complaint_ne

/-- The schedule does not show in the outcome of a request. -/
theorem perform_schedule (r : Request) (s : Surroundings) (schedule : List Nat) :
    (r.perform { s with schedule }).Agrees (r.perform s) := by
  match r with
  | .help _ _ | .version _ | .misuse | .command ⟨_, _, .inspect _⟩ |
    .command ⟨_, _, .completions _⟩ => exact .refl _
  | .command ⟨false, quiet, .run o⟩ => exact performRun_schedule s schedule quiet o
  | .command ⟨true, true, .run o⟩ => exact performRun_schedule s schedule true o
  | .command ⟨true, false, .run o⟩ =>
    let plain : Request := .command ⟨false, false, .run o⟩
    change (plain.verbosely.perform { s with schedule }).Agrees (plain.verbosely.perform s)
    by_cases h : plain.Unwritable s
    · have h' : plain.Unwritable { s with schedule } := h
      rw [verbosely_perform_unwritable h, verbosely_perform_unwritable h']
      exact .refl _
    · have h' : ¬ plain.Unwritable { s with schedule } := h
      obtain ⟨log, hlog⟩ := plain.verbosely_perform s h
      obtain ⟨log', hlog'⟩ := plain.verbosely_perform _ h'
      rw [hlog, hlog']
      have hagrees := performRun_schedule s schedule false o
      exact Report.agrees hagrees.complaint hagrees.written

/-- **What `--verbose` changes.** Before the name of the command it asks for the same. Two command
lines of which one asks for the same as the other with much to say come to the same end, with the
same file, in the same surroundings and under any two schedules, exactly when the settings can be
printed; with one schedule they then print the same lines, the settings before them. Settings that
cannot be printed end the one run, with nothing written, and not the other. -/
theorem verbose_outcome (s : Surroundings) (schedule : List Nat) :
    (∀ flag ∈ ["--verbose", "-v"], ∀ rest,
      ofArguments (flag :: "run" :: rest) = (ofArguments ("run" :: rest)).verbosely) ∧
    ∀ args args' : List String, ofArguments args' = (ofArguments args).verbosely →
      let plain := (ofArguments args).perform s
      let verbose := (ofArguments args').perform { s with schedule }
      (verbose.Agrees plain ↔ ¬ (ofArguments args).Unwritable s) ∧
      (¬ (ofArguments args).Unwritable s → schedule = s.schedule →
        ∃ log, verbose = { plain with lines := log ++ plain.lines }) ∧
      ((ofArguments args).Unwritable s → verbose = { complaint := some .unwritableSettings }) ∧
      ∀ o c, ofArguments args = .command ⟨false, false, .run o⟩ →
        effectiveSettings s o.config o.overrides = .ok c → plain.Concludes s o c := by
  refine ⟨fun _ hflag rest => ofArguments_verbose hflag rest, ?_⟩
  intro args args' hargs plain verbose
  have hverbose : verbose.Agrees ((ofArguments args).verbosely.perform s) := by
    rw [← hargs]
    exact perform_schedule _ s schedule
  refine ⟨⟨fun hagrees h => ?_, fun h => ?_⟩, fun h hschedule => ?_, fun h => ?_, ?_⟩
  · refine complaint_ne_of_unwritable h (hagrees.complaint.symm.trans (hverbose.complaint.trans ?_))
    rw [verbosely_perform_unwritable h]
  · obtain ⟨log, hlog⟩ := (ofArguments args).verbosely_perform s h
    rw [hlog] at hverbose
    exact hverbose.trans (Report.agrees rfl rfl)
  · subst hschedule
    obtain ⟨log, hlog⟩ := (ofArguments args).verbosely_perform s h
    exact ⟨log, by rw [← hlog, ← hargs]⟩
  · have h' : (ofArguments args).Unwritable { s with schedule } := h
    rw [← verbosely_perform_unwritable h', ← hargs]
  · intro o c hrun hsettings
    have hplain : plain = performRun s false false o := congrArg (Request.perform s) hrun
    rw [hplain]
    exact performRun_concludes hsettings

/-- A single cell whose links would be longer than a document can say: the run goes through and
writes its file, and with `--verbose` it fails and writes none. -/
theorem verbose_run_fails :
    let args := ["run", "--cells", "1", "-m", "2", "-i", "1", "-o", "heat.csv", "-f", "csv"]
    let s : Surroundings := ⟨fun _ => none, [("HEATMESH_LINK_CAPACITY", "9223372036854775808")],
      fun _ => .ok (), [], .asWritten⟩
    let plain := (ofArguments args).perform s
    let verbose := (ofArguments (args ++ ["--verbose"])).perform s
    (plain.exitStatus = 0 ∧
      plain.written = some ("heat.csv", "row,col,temp\n0,0,147\n".toUTF8.data)) ∧
    verbose.exitStatus = 1 ∧ verbose.complaint = some .unwritableSettings ∧
      verbose.written = none := by decide +kernel

/-- Links as long as a document can say do not tell the runs from each other. -/
theorem verbose_outcome_longest :
    let args := ["run", "--cells", "1", "-m", "2", "-i", "1", "-o", "heat.csv", "-f", "csv"]
    let s : Surroundings := ⟨fun _ => none, [("HEATMESH_LINK_CAPACITY", "9223372036854775807")],
      fun _ => .ok (), [], .asWritten⟩
    ((ofArguments (args ++ ["--verbose"])).perform s).Agrees ((ofArguments args).perform s) := by
  intro args s
  have hread : ofArguments args = .command ⟨false, false, .run
      { overrides := ⟨some 1, some 1, some 2⟩, output := some "heat.csv", format := .csv }⟩ := by
    decide +kernel
  have hverbose : ofArguments (args ++ ["--verbose"]) = (ofArguments args).verbosely := by
    decide +kernel
  have hsettings : effectiveSettings s none ⟨some 1, some 1, some 2⟩ = .ok
      { cells := 1, messageWords := 2, iterations := 1, linkCapacity := 0x7fffffffffffffff } := by
    decide +kernel
  refine ((verbose_outcome s s.schedule).2 args _ hverbose).1.2 ?_
  rw [hread]
  rintro ⟨o, c, hrun, hc, hlong⟩
  obtain rfl : _ = o := by simpa using hrun
  obtain rfl := Except.ok.inj (hsettings.symm.trans hc)
  exact absurd hlong (by decide)

end Request

end Command
end DiffusionMesh
