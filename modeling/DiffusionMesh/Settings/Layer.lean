/-
# Sources of settings

A source is a table of keys with values. There are two: a TOML document, and the environment,
where a variable `HEATMESH_BOUNDARY__NORTH` sets `boundary.north` to a text. The environment is
laid over the document.

A table keeps its entries in no order, and they are laid as they come: those of one source in some
order, and those of a table in it in some order too (`LayingOrder`). If several keys lead to one
place, the order decides which of them stands there, and even whether they can be laid.
-/

import DiffusionMesh.Settings.Fault
import DiffusionMesh.Settings.Tree
import DiffusionMesh.Toml.Rearrangement

namespace DiffusionMesh
namespace Settings

/-- The keys and values of one source, and the name of the source. -/
structure Layer where
  origin : Option String
  entries : Toml.Entries
deriving Repr, Inhabited

namespace Layer

/-- The start of the names of all variables that are settings, in lower case. -/
def variableStart : String := "heatmesh_"

/-- The text with a point for every two underscores, from left to right. -/
def pointed : List Char → List Char
  | '_' :: '_' :: rest => '.' :: pointed rest
  | c :: rest => c :: pointed rest
  | [] => []

/-- The key that a variable of the environment sets. -/
def keyOf? (name : String) : Option String :=
  let name := (Text.lowerCase name).toList
  let start := variableStart.toList
  if start.isPrefixOf name then some (String.ofList (pointed (name.drop start.length))) else none

/-- The last entry of each key. -/
def lastOfEach : Toml.Entries → Toml.Entries
  | [] => []
  | entry :: rest =>
    if rest.any (·.1 = entry.1) then lastOfEach rest else entry :: lastOfEach rest

theorem mem_of_mem_lastOfEach {entries : Toml.Entries} {entry : String × Toml.Value}
    (h : entry ∈ lastOfEach entries) : entry ∈ entries := by
  induction entries with
  | nil => exact h
  | cons first rest ih =>
    rw [lastOfEach] at h
    split at h
    · exact List.mem_cons_of_mem _ (ih h)
    · exact List.mem_cons.2 ((List.mem_cons.1 h).imp_right ih)

/-- Each key keeps an entry. -/
theorem exists_mem_lastOfEach {entries : Toml.Entries} {key : String} {v : Toml.Value}
    (h : (key, v) ∈ entries) : ∃ w, (key, w) ∈ lastOfEach entries := by
  induction entries generalizing v with
  | nil => exact absurd h List.not_mem_nil
  | cons first rest ih =>
    rw [lastOfEach]
    rcases List.mem_cons.1 h with rfl | hrest
    · split
      · next hagain =>
        obtain ⟨⟨name, w⟩, hmem, hname⟩ := List.any_eq_true.1 hagain
        obtain rfl : name = key := of_decide_eq_true hname
        exact ih hmem
      · exact ⟨v, List.mem_cons_self⟩
    · obtain ⟨w, hw⟩ := ih hrest
      split
      · exact ⟨w, hw⟩
      · exact ⟨w, List.mem_cons_of_mem _ hw⟩

/-- The settings in the environment. Of several variables for one key the last counts. -/
def ofEnvironment (environment : List (String × String)) : Layer where
  origin := some "the environment"
  entries := lastOfEach (environment.filterMap fun (name, text) =>
    (keyOf? name).map fun key => (key, .text text))

/-- Two sources that differ at most in the order of the entries of tables. -/
structure Rearranged (layer layer' : Layer) : Prop where
  origin : layer'.origin = layer.origin
  entries : Toml.Entries.Rearranged layer.entries layer'.entries

/-- Lays a source over the sources before it, entry by entry. -/
def laidOver (layer : Layer) (t : Tree) : Except LoadFault Tree :=
  layer.entries.foldlM (fun t (key, v) =>
    (t.set layer.origin v (KeyPath.ofKey key)).elim (.error (.outOfReach key)) .ok) t

end Layer

/-- The order in which the entries of tables come up, for each table of each source any. -/
structure LayingOrder where
  /-- The source of a number with its entries in the order in which they are laid. -/
  arrange : Nat → Layer → Layer
  rearranged : ∀ (i : Nat) (layer : Layer), layer.Rearranged (arrange i layer)

namespace LayingOrder

/-- The order of the text. -/
def asWritten : LayingOrder where
  arrange _ layer := layer
  rearranged _ layer := ⟨rfl, .refl layer.entries⟩

/-- All sources, with their entries in the order in which they are laid. -/
def arranged (order : LayingOrder) (layers : List Layer) : List Layer :=
  layers.mapIdx order.arrange

/-- Each source that is laid is one of the sources, rearranged. -/
theorem exists_of_mem_arranged {order : LayingOrder} {layers : List Layer} {layer' : Layer}
    (h : layer' ∈ order.arranged layers) : ∃ layer ∈ layers, layer.Rearranged layer' := by
  obtain ⟨i, hi, rfl⟩ := List.mem_mapIdx.1 h
  exact ⟨layers[i], List.getElem_mem hi, order.rearranged i _⟩

end LayingOrder

/-- The settings of all sources, a later one over an earlier one. -/
def ofLayers (layers : List Layer) : Except LoadFault Tree :=
  layers.foldlM (fun t l => l.laidOver t) (.table [] none)

end Settings
end DiffusionMesh
