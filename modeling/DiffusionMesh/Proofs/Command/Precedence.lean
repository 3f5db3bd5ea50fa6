/-
# Where each setting comes from

A run takes its settings from four places. The first that gives a setting a number decides about
that setting, and about no other:

| place | gives |
| --- | --- |
| command line | cells, iterations, words of a message |
| environment | all eight |
| file | all eight |
| defaults | all eight |

File and environment may hold keys that lead elsewhere. They count for nothing, but one that asks
for a place before the start of a sequence, or for one that no sequence has room for, brings the
loading down (`loading_breaks_down`). A sequence may be laid before such a key or after it, so the
order in which these keys come up can decide whether loading succeeds. It never decides what a setting
is. Main statement: `settings_layered`.
-/

import DiffusionMesh.Command.Run
import DiffusionMesh.Proofs.Settings.Sources

namespace DiffusionMesh

namespace Toml

/-! ### Documents compared -/

mutual

/-- Whether two values hold the same texts, whole numbers and tables. -/
def same : Value → Value → Bool
  | .text s, .text t => s == t
  | .integer m, .integer n => m == n
  | .table xs, .table ys => sameEntries xs ys
  | _, _ => false

/-- Whether two tables have the same entries. -/
def sameEntries : List (String × Value) → List (String × Value) → Bool
  | [], [] => true
  | x :: xs, y :: ys => sameEntry x y && sameEntries xs ys
  | _, _ => false

/-- Whether two entries are the same. -/
def sameEntry : String × Value → String × Value → Bool
  | (key, v), (name, w) => key == name && same v w

end

mutual

theorem eq_of_same : ∀ {v w : Value}, same v w = true → v = w
  | .text _, .text _, h => by simpa [same] using h
  | .integer _, .integer _, h => by simpa [same] using h
  | .table xs, .table ys, h => by
    rw [same] at h
    rw [eq_of_sameEntries h]

theorem eq_of_sameEntries : ∀ {xs ys : List (String × Value)}, sameEntries xs ys = true → xs = ys
  | [], [], _ => rfl
  | x :: xs, y :: ys, h => by
    rw [sameEntries, Bool.and_eq_true] at h
    rw [eq_of_sameEntry h.1, eq_of_sameEntries h.2]

theorem eq_of_sameEntry : ∀ {x y : String × Value}, sameEntry x y = true → x = y
  | (key, v), (name, w), h => by
    rw [sameEntry, Bool.and_eq_true, beq_iff_eq] at h
    rw [h.1, eq_of_same h.2]

end

/-- Whether two documents hold the same. -/
def sameContent : Content → Content → Bool
  | .table xs, .table ys => sameEntries xs ys
  | .moment s, .moment t => s == t
  | _, _ => false

theorem eq_of_sameContent : ∀ {c d : Content}, sameContent c d = true → c = d
  | .table xs, .table ys, h => by
    rw [sameContent] at h
    rw [eq_of_sameEntries h]
  | .moment s, .moment t, h => by
    rw [sameContent, beq_iff_eq] at h
    rw [h]

/-- A text holds what it has been compared with. -/
theorem read_eq_of_same {text : String} {content : Content}
    (h : (read text).any (sameContent content ·) = true) : read text = some content := by
  obtain ⟨found, hread, hsame⟩ := (Option.any_eq_true _ _).1 h
  rw [hread, ← eq_of_sameContent hsame]

end Toml

namespace Command

open Settings

/-- The settings that the command line gives. -/
def Overrides.given (o : Overrides) : Setting → Option Int
  | .cells => o.cells.map fun n => n.toNat
  | .iterations => o.iterations.map fun n => n.toNat
  | .messageWords => o.messageWords.map fun n => n.toNat
  | .linkCapacity | .side _ => none

/-- The command line decides about the settings that it gives, and about no other. -/
theorem Overrides.of_apply (o : Overrides) (c : Config) (s : Setting) :
    s.of (o.apply c) = (o.given s).getD (s.of c) := by
  obtain ⟨cells, iterations, messageWords⟩ := o
  cases s with
  | cells => cases cells <;> rfl
  | iterations => cases iterations <;> rfl
  | messageWords => cases messageWords <;> rfl
  | linkCapacity | side => rfl

/-- A key of a source that leads elsewhere and asks too far. -/
def StraysTooFar (sources : List Layer) (key : String) : Prop :=
  ∃ source ∈ sources, ∃ v, (key, v) ∈ source.entries ∧ isFurther key = true ∧ asksTooFar key = true

/-- How loading comes out for some sources whose entries come up in some order. It fails only for a
key that leads elsewhere and asks too far, and it fails if and only if the keys that lead elsewhere
cannot be laid by themselves, in that order. If it succeeds, each setting is the number that is
given, or its default. -/
structure Layered (order : LayingOrder) (sources : List Layer) (given : Setting → Option Int)
    (outcome : Except Failure Config) : Prop where
  succeeds : (∀ key, ¬ StraysTooFar sources key) → ∃ c, outcome = .ok c
  settles : ∀ c, outcome = .ok c → ∀ s : Setting, s.of c = (given s).getD (s.of {})
  fails : ∀ failure, outcome = .error failure →
    ∃ key, StraysTooFar sources key ∧ failure = .loading (.outOfReach key)
  alone : ∀ fault, outcome = .error (.loading fault) ↔
    ofLayers ((order.arranged sources).map Layer.further) = .error fault

namespace Layered

variable {order : LayingOrder} {sources : List Layer} {given : Setting → Option Int}
  {outcome : Except Failure Config}

/-- Sources that give settings numbers, in their order, are layered. -/
theorem load {numbers : List (Setting → Option Int)}
    (h : List.Forall₂ Layer.Sets (order.arranged sources) numbers) :
    Layered order sources (lastGiven numbers)
      ((Settings.load order sources).mapError .loading) := by
  rcases load_layered h with ⟨fault, hload, hfurther⟩ | ⟨c, t, hload, hfurther, hvalues⟩
  · obtain ⟨layer, hlayer, e, he, hkey, rfl, hfar⟩ := exists_asksTooFar hfurther
    obtain ⟨source, hsource, hother⟩ := LayingOrder.exists_of_mem_arranged hlayer
    obtain ⟨v, hv, -⟩ := hother.entries.exists_left he
    have hstrays : StraysTooFar sources e.1 := ⟨source, hsource, v, hv, hkey, hfar⟩
    rw [hload]
    refine ⟨fun hnear => absurd hstrays (hnear e.1), nofun, fun failure hfailure => ?_,
      fun fault => ?_⟩
    · obtain rfl := Except.error.inj hfailure
      exact ⟨e.1, hstrays, rfl⟩
    · rw [hfurther, Except.error.injEq]
      exact ⟨fun hfault => Failure.loading.inj (Except.error.inj hfault), fun hfault => hfault ▸ rfl⟩
  · rw [hload]
    refine ⟨fun _ => ⟨c, rfl⟩, fun c' hc => ?_, fun failure hfailure => ?_, fun fault => ?_⟩
    · obtain rfl := Except.ok.inj hc
      exact hvalues
    · cases hfailure
    · rw [hfurther]
      exact ⟨nofun, nofun⟩

/-- The command line comes before all sources. -/
theorem apply (h : Layered order sources given outcome) (o : Overrides) :
    Layered order sources (fun s => (o.given s).or (given s)) (outcome.map o.apply) := by
  cases outcome with
  | error failure => exact ⟨fun hnear => (h.succeeds hnear).elim nofun, nofun, h.fails, h.alone⟩
  | ok c =>
    refine ⟨fun _ => ⟨_, rfl⟩, fun c' hc s => ?_, fun failure hfailure => ?_,
      fun fault => ⟨nofun, fun hfault => ?_⟩⟩
    · obtain rfl := Except.ok.inj hc
      rw [o.of_apply, h.settles c rfl]
      cases o.given s <;> rfl
    · cases hfailure
    · cases (h.alone fault).2 hfault

end Layered

theorem loadSettings_eq (s : Surroundings) (path? : Option String) (o : Overrides) :
    loadSettings s path? o =
      ((Config.ofFile s.files path? s.environment s.order).mapError .loading).map o.apply := by
  rw [loadSettings]
  cases Config.ofFile s.files path? s.environment s.order <;> rfl

/-- A file is found under its own name first. -/
theorem findSome?_candidates {files : String → Option String} {path text : String}
    (h : files path = some text) : (candidates path).findSome?
      (fun p => (files p).map fun text => (p, text)) = some (path, text) := by
  have hfirst : ∃ rest, candidates path = path :: rest := by
    rw [candidates]
    split
    · exact ⟨_, rfl⟩
    · split <;> exact ⟨_, rfl⟩
  obtain ⟨rest, hrest⟩ := hfirst
  rw [hrest, List.findSome?_cons_of_isSome (by simp [h])]
  simp [h]

theorem lastGiven_single (env : Setting → Option Int) : lastGiven [env] = env := by
  funext s
  rw [lastGiven, lastTold_cons]
  rfl

/-- The number that two sources give a setting. -/
theorem lastGiven_pair (file env : Setting → Option Int) :
    lastGiven [file, env] = fun s => (env s).or (file s) := by
  funext s
  rw [lastGiven, lastTold_cons, lastTold_cons]
  cases env s <;> rfl

section

variable {text : String} {entries : Toml.Entries} {environment : List (String × String)}
  {file env : Setting → Option Int}

/-- The source that a document with a table is. -/
theorem documentLayer_of_read (hread : Toml.read text = some (.table entries))
    (origin : Option String) : documentLayer origin text = .ok ⟨origin, entries⟩ := by
  rw [documentLayer, hread]

theorem ofText_of_read (hread : Toml.read text = some (.table entries))
    (environment : List (String × String)) (order : LayingOrder) :
    Config.ofText text environment order =
      load order [⟨none, entries⟩, .ofEnvironment environment] := by
  rw [Config.ofText, documentLayer_of_read hread]
  rfl

/-- A document and an environment give settings their numbers in every order. -/
theorem sets_arranged (hfile : DocumentSets entries file) (henv : EnvironmentSets environment env)
    (origin : Option String) (order : LayingOrder) :
    List.Forall₂ Layer.Sets (order.arranged [⟨origin, entries⟩, .ofEnvironment environment])
      [file, env] :=
  .cons (hfile.sets (order.rearranged 0 ⟨origin, entries⟩))
    (.cons (henv.sets (order.rearranged 1 _)) .nil)

end

/-- **Settings are layered one by one.** Each is the number that the command line gives, else that of
the environment, else that of the file, else its default, whatever becomes of the others, and in
whatever order the entries of the sources come up. Loading comes out so from a text and the
environment, from a file that is found at a path, and without a file. -/
theorem settings_layered {s : Surroundings} {text : String} {entries : Toml.Entries}
    {file env : Setting → Option Int} (hread : Toml.read text = some (.table entries))
    (hfile : DocumentSets entries file) (henv : EnvironmentSets s.environment env)
    (o : Overrides) :
    Layered s.order [⟨none, entries⟩, .ofEnvironment s.environment] (fun x => (env x).or (file x))
      ((Config.ofText text s.environment s.order).mapError .loading) ∧
    (∀ path found, (candidates path).findSome? (fun p => (s.files p).map fun text => (p, text)) =
        some (found, text) →
      Layered s.order [⟨some (plainPath found), entries⟩, .ofEnvironment s.environment]
        (fun x => (o.given x).or ((env x).or (file x))) (loadSettings s (some path) o)) ∧
    Layered s.order [.ofEnvironment s.environment] (fun x => (o.given x).or (env x))
      (loadSettings s none o) := by
  have hboth : ∀ origin, Layered s.order [⟨origin, entries⟩, .ofEnvironment s.environment]
      (fun x => (env x).or (file x))
      ((load s.order [⟨origin, entries⟩, .ofEnvironment s.environment]).mapError .loading) := by
    intro origin
    rw [← lastGiven_pair]
    exact .load (sets_arranged hfile henv origin s.order)
  have halone : Layered s.order [.ofEnvironment s.environment] env
      ((load s.order [.ofEnvironment s.environment]).mapError .loading) := by
    rw [← lastGiven_single env]
    exact .load (.cons (henv.sets (s.order.rearranged 0 _)) .nil)
  refine ⟨?_, fun path found hfound => ?_, ?_⟩
  · rw [ofText_of_read hread]
    exact hboth none
  · have hload : Config.ofFile s.files (some path) s.environment s.order =
        load s.order [⟨some (plainPath found), entries⟩, .ofEnvironment s.environment] := by
      simp only [Config.ofFile, hfound, documentLayer_of_read hread]
      rfl
    rw [loadSettings_eq, hload]
    exact (hboth _).apply o
  · rw [loadSettings_eq]
    exact halone.apply o

/-- The entries of each source from the last to the first. -/
def backward : LayingOrder where
  arrange _ layer := { layer with entries := layer.entries.reverse }
  rearranged _ layer := ⟨rfl, .perm (.refl layer.entries) (List.reverse_perm layer.entries).symm⟩

/-- The command line gives the cells, and the environment one of the sides that the file gives. The
file is gone through backward. -/
theorem settings_layered_south :
    let text := "y = 0\n[boundary]\nsouth = 7\neast = 8\n"
    let s : Surroundings := {
      files := fun path => if path = "mesh.toml" then some text else none
      environment := [("HEATMESH_Boundary__SOUTH", "12")]
      create := fun _ => .ok ()
      order := backward }
    loadSettings s (some "mesh.toml") { cells := some 4 } =
      .ok { cells := 4, boundary := ⟨255, 12, 8, 255⟩ } := by
  intro text s
  let entries : Toml.Entries :=
    [("y", .integer 0), ("boundary", .table [("south", .integer 7), ("east", .integer 8)])]
  let file : Setting → Option Int := fun x =>
    if x = .side .south then some 7 else if x = .side .east then some 8 else none
  let env : Setting → Option Int := fun x => if x = .side .south then some 12 else none
  have hread : Toml.read text = some (.table entries) := Toml.read_eq_of_same (by decide +kernel)
  have hother : Text.lowerCase "y" = "y" := by decide +kernel
  have hboundary : Text.lowerCase "boundary" = "boundary" := by decide +kernel
  have hsouth : Text.lowerCase "south" = "south" := by decide +kernel
  have heast : Text.lowerCase "east" = "east" := by decide +kernel
  have hfile : DocumentSets entries file := by
    refine ⟨fun x v => ?_, fun x n hn => ?_, fun key v hmem hkey => ?_, by decide +kernel⟩
    · rcases x with _ | _ | _ | _ | _ | _ | _ | _ <;>
        simp [Setting.names, Direction.key, stands_cons, stands_cons_pair, not_stands_nil, hother,
          hboundary, hsouth, heast, entries, file]
    · rcases x with _ | _ | _ | _ | _ | _ | _ | _ <;> cases hn <;> decide
    · simp only [entries, List.mem_cons, List.not_mem_nil, or_false, Prod.mk.injEq] at hmem
      rcases hmem with ⟨rfl, -⟩ | ⟨-, rfl⟩
      · simp [hother] at hkey
      · exact ⟨_, rfl⟩
  have hname : Text.lowerCase "HEATMESH_Boundary__SOUTH" = (Setting.side .south).variableName := by
    decide +kernel
  have htwelve : Decimal true (String.ofList ['1', '2']) 12 :=
    .bare (by decide) (List.all_eq_true.1 (by decide))
  have henv : EnvironmentSets s.environment env := by
    refine ⟨fun x name text hmem hx => ?_, fun x n hn => ?_, fun x n hn => ?_,
      fun name text key hmem hnone _ => ?_⟩
    · obtain ⟨rfl, rfl⟩ := Prod.mk.inj (List.mem_singleton.1 hmem)
      obtain rfl := Setting.eq_of_variableName hname hx
      exact ⟨12, rfl, htwelve⟩
    · rcases x with _ | _ | _ | _ | _ | _ | _ | _ <;> cases hn
      exact ⟨_, _, List.mem_singleton_self _, hname⟩
    · rcases x with _ | _ | _ | _ | _ | _ | _ | _ <;> cases hn
      decide
    · obtain ⟨rfl, -⟩ := Prod.mk.inj (List.mem_singleton.1 hmem)
      exact absurd hname (hnone _)
  obtain ⟨-, hlayered, -⟩ := settings_layered hread hfile henv { cells := some 4 }
  have hlayered := hlayered "mesh.toml" "mesh.toml" (findSome?_candidates (by simp [s]))
  have hnear : ∀ source ∈ [⟨some (plainPath "mesh.toml"), entries⟩,
      Layer.ofEnvironment s.environment], ∀ e ∈ source.entries, asksTooFar e.1 = false := by
    decide +kernel
  obtain ⟨c, hc⟩ := hlayered.succeeds fun key hstrays => by
    obtain ⟨source, hsource, v, hv, -, hfar⟩ := hstrays
    cases hfar.symm.trans (hnear source hsource (key, v) hv)
  rw [hc]
  refine congrArg _ (Setting.eq_of_of fun x => (hlayered.settles c hc x).trans ?_)
  rcases x with _ | _ | _ | _ | _ | _ | _ | _ <;> rfl

/-- A key that asks for the last place of a sequence, and the key of that sequence: together they can
be laid in the one order only. -/
example :
    let text := "x = [1]\n\"x[-1]\" = 2\ncells = 4"
    Config.ofText text [] = .ok { cells := 4 } ∧
      Config.ofText text [] backward = .error (.outOfReach "x[-1]") := by
  decide +kernel

/-- A source with a single key that leads elsewhere has that one in every order. -/
theorem further_eq {layer layer' : Layer} {key : String} {v : Toml.Value}
    (hother : layer.Rearranged layer') (hplain : v.Plain)
    (h : layer.further.entries = [(key, v)]) : layer'.further = ⟨layer.origin, [(key, v)]⟩ := by
  have hrearranged := hother.further.entries
  rw [h] at hrearranged
  obtain ⟨w, hw, hvalue⟩ := hrearranged.exists_singleton
  rw [hvalue.eq hplain] at hw
  rw [← hother.origin, ← hw]
  rfl

/-- A document is not loaded, in whatever order its keys come up, if the only one that leads
elsewhere cannot be laid over nothing. -/
theorem ofText_of_unreachable {text key : String} {entries : Toml.Entries} {v : Toml.Value}
    {file env : Setting → Option Int} {environment : List (String × String)}
    (hread : Toml.read text = some (.table entries)) (hfile : DocumentSets entries file)
    (henv : EnvironmentSets environment env)
    (honly : (entries.filter fun e => isFurther e.1) = [(key, v)]) (hplain : v.Plain)
    (hset : Tree.set none v (KeyPath.ofKey key) (.table [] none) = none) (order : LayingOrder) :
    Config.ofText text environment order = .error (.outOfReach key) := by
  have hfails : ofLayers ((order.arranged
      [⟨none, entries⟩, .ofEnvironment environment]).map Layer.further) =
        .error (.outOfReach key) := by
    have harranged : order.arranged [⟨none, entries⟩, .ofEnvironment environment] =
        [order.arrange 0 ⟨none, entries⟩, order.arrange 1 (.ofEnvironment environment)] := rfl
    rw [harranged, List.map_cons, further_eq (order.rearranged 0 ⟨none, entries⟩) hplain honly,
      ofLayers, List.foldlM_cons, Layer.laidOver_cons, hset]
    rfl
  rw [ofText_of_read hread]
  rcases load_layered (sets_arranged hfile henv none order) with
    ⟨fault, hfault, hfurther⟩ | ⟨c, t, -, hfurther, -⟩
  · obtain rfl := Except.error.inj (hfails.symm.trans hfurther)
    exact hfault
  · cases hfails.symm.trans hfurther

/-- **A key that leads elsewhere can bring the loading down**, in whatever order the keys come up.
The document sets the number of cells, and has another key that asks for the place before the last in
an empty sequence. If the other key is the mark of a date, and comes first, the document is no table,
and loading fails. -/
theorem loading_breaks_down :
    let text := "\"x[-2]\" = 1\ncells = 4"
    let entries : Toml.Entries := [("x[-2]", .integer 1), ("cells", .integer 4)]
    let file : Setting → Option Int := fun s => if s = .cells then some 4 else none
    Toml.read text = some (.table entries) ∧ DocumentSets entries file ∧
      EnvironmentSets [] (fun _ => none) ∧
      (∀ order, Config.ofText text [] order = .error (.outOfReach "x[-2]")) ∧
      ∀ order, Config.ofText "\"$__toml_private_datetime\" = '1979-05-27'\ncells = 4" [] order =
        .error (.noTable "1979-05-27" none) := by
  intro text entries file
  have hread : Toml.read text = some (.table entries) := Toml.read_eq_of_same (by decide +kernel)
  have hcells : Text.lowerCase "cells" = "cells" := by decide +kernel
  have hother : Text.lowerCase "x[-2]" = "x[-2]" := by decide +kernel
  have hfile : DocumentSets entries file := by
    refine ⟨fun s v => ?_, fun s n hn => ?_, fun key v hmem hname => ?_, by decide +kernel⟩
    · cases s with
      | side d =>
        simp [Setting.names, stands_cons_pair, not_stands_nil, hcells, hother, entries, file]
      | cells | messageWords | iterations | linkCapacity =>
        simp [Setting.names, stands_cons, not_stands_nil, hcells, hother, entries, file]
    · obtain ⟨rfl, rfl⟩ : s = .cells ∧ 4 = n := by simpa [file] using hn
      decide
    · simp only [entries, List.mem_cons, List.not_mem_nil, or_false, Prod.mk.injEq] at hmem
      rcases hmem with ⟨rfl, -⟩ | ⟨rfl, -⟩
      · simp [hother] at hname
      · simp [hcells] at hname
  have henv : EnvironmentSets [] (fun _ => none) := ⟨nofun, nofun, nofun, nofun⟩
  refine ⟨hread, hfile, henv, fun order => ?_, fun order => ?_⟩
  · have hfurther : isFurther "x[-2]" = true := by decide +kernel
    have hsetting : isFurther "cells" = false := by decide +kernel
    have hplace : KeyPath.ofKey "x[-2]" = [.name "x", .index (-2)] := by decide +kernel
    have honly : (entries.filter fun e => isFurther e.1) = [("x[-2]", .integer 1)] := by
      simp only [entries, List.filter_cons, hfurther, hsetting, if_true, List.filter_nil]
      rfl
    exact ofText_of_unreachable hread hfile henv honly nofun (by rw [hplace]; rfl) order
  · have hmoment : Toml.read "\"$__toml_private_datetime\" = '1979-05-27'\ncells = 4" =
        some (.moment "1979-05-27") := Toml.read_eq_of_same (by decide +kernel)
    simp only [Config.ofText, documentLayer, hmoment]
    rfl

end Command
end DiffusionMesh
