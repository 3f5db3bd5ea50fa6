/-
# Documents and environments that set settings

A document sets a setting by what stands at its names, an environment by its variable, both in any
case:

| source | sets `boundary.north` by |
| --- | --- |
| document | a whole number under the key `north` of a table under the key `boundary` |
| environment | a decimal text in the variable `HEATMESH_BOUNDARY__NORTH` |

Either may hold anything else under keys that lead elsewhere. A document or environment that does no
more than that is a source in the sense of `Layer.Sets`, in whatever order its entries come up
(`DocumentSets.sets`, `EnvironmentSets.sets`).
-/

import DiffusionMesh.Proofs.Settings.Layering
import Mathlib.Data.List.TakeWhile

namespace DiffusionMesh

/-! ### The last thing that tells -/

section LastTold

variable {α β : Type} {tells : α → Option β} {things : List α} {b : β}

theorem exists_of_lastTold (h : lastTold tells things = some b) :
    ∃ a ∈ things, tells a = some b := by
  obtain ⟨a, hmem, htold⟩ := List.exists_of_findSome?_eq_some h
  exact ⟨a, List.mem_reverse.1 hmem, htold⟩

theorem isSome_lastTold {a : α} (hmem : a ∈ things) (h : (tells a).isSome = true) :
    (lastTold tells things).isSome = true :=
  List.findSome?_isSome_iff.2 ⟨a, List.mem_reverse.2 hmem, h⟩

end LastTold

namespace Settings

namespace Tree

variable {name key : String} {entries : Toml.Entries} {v : Toml.Value}

theorem exists_of_lastNamed (h : lastNamed name entries = some v) :
    ∃ key, (key, v) ∈ entries ∧ Text.lowerCase key = name := by
  obtain ⟨⟨key, u⟩, hmem, htold⟩ := exists_of_lastTold h
  obtain ⟨hkey, hvalue⟩ := Option.ite_none_right_eq_some.1 htold
  obtain rfl := Option.some.inj hvalue
  exact ⟨key, hmem, hkey⟩

theorem isSome_lastNamed (hmem : (key, v) ∈ entries) (hkey : Text.lowerCase key = name) :
    (lastNamed name entries).isSome = true :=
  isSome_lastTold hmem (by simp only [if_pos hkey, Option.isSome_some])

end Tree

/-! ### Keys -/

namespace KeyPath

/-- A character whose lower case belongs to a name belongs to one itself, unless it is the Kelvin
sign. -/
theorem isNameChar_of_lowerChar {c : Char} (h : isNameChar (Text.lowerChar c) = true) :
    isNameChar c = true ∨ c = '\u212A' := by
  by_cases hkelvin : c = '\u212A'
  · exact .inr hkelvin
  · refine .inl ?_
    by_cases hupper : c.isUpper = true
    · have hletter : c.isAlpha = true := Bool.or_eq_true_iff.2 (.inl hupper)
      simp [isNameChar, Char.isAlphanum, hletter]
    · rwa [Text.lowerChar_of_not_isUpper hkelvin hupper] at h

/-- No path goes on with the Kelvin sign. -/
theorem steps?_kelvin (limit : Nat) (cs : List Char) : steps? limit ('\u212A' :: cs) = none := by
  cases limit <;> rfl

/-- A text of characters of names is a path of one name. -/
theorem ofText?_of_name {key : String} (hne : key ≠ "")
    (hall : ∀ c ∈ key.toList, isNameChar c = true) :
    ofText? key = some [.name (Text.lowerCase key)] := by
  have hread : name? key.toList = some (.name (Text.lowerCase key), []) := by
    rw [name?, List.takeWhile_eq_self_iff.2 hall, List.dropWhile_eq_nil_iff.2 hall, if_neg,
      String.ofList_toList]
    rw [List.isEmpty_iff, String.toList_eq_nil_iff]
    exact hne
  rw [ofText?, hread]
  rfl

/-- A text of characters of names and Kelvin signs is no path, if there is a Kelvin sign in it: the
first name ends there. -/
theorem ofText?_of_kelvin {key : String}
    (hchars : ∀ c ∈ key.toList, isNameChar c = true ∨ c = '\u212A')
    (hkelvin : '\u212A' ∈ key.toList) : ofText? key = none := by
  have hrest : ∃ cs, key.toList.dropWhile isNameChar = '\u212A' :: cs := by
    cases hdrop : key.toList.dropWhile isNameChar with
    | nil => cases List.dropWhile_eq_nil_iff.1 hdrop _ hkelvin
    | cons c cs =>
      have hmem : c ∈ key.toList :=
        (List.dropWhile_sublist isNameChar).subset (hdrop ▸ List.mem_cons_self)
      have hstop : isNameChar c = false := by
        have hhead := List.head_dropWhile_not isNameChar (hdrop ▸ List.cons_ne_nil c cs)
        simpa only [hdrop, List.head_cons] using hhead
      obtain rfl := (hchars c hmem).resolve_left (by simp [hstop])
      exact ⟨cs, rfl⟩
  obtain ⟨cs, hcs⟩ := hrest
  simp only [ofText?, name?, hcs]
  split
  · rfl
  · simp [steps?_kelvin]

/-- **A key whose lower case is a name leads to that name**, however it is spelled. With a Kelvin sign
it is no path, and so one name. -/
theorem ofKey_of_lowerCase {key : String} (hne : key ≠ "")
    (hname : ∀ c ∈ (Text.lowerCase key).toList, isNameChar c = true) :
    ofKey key = [.name (Text.lowerCase key)] := by
  have hchars : ∀ c ∈ key.toList, isNameChar c = true ∨ c = '\u212A' := by
    intro c hc
    refine isNameChar_of_lowerChar (hname _ ?_)
    rw [Text.lowerCase, String.toList_map]
    exact List.mem_map_of_mem hc
  by_cases hkelvin : '\u212A' ∈ key.toList
  · rw [ofKey, ofText?_of_kelvin hchars hkelvin, Option.getD_none]
  · have hall : ∀ c ∈ key.toList, isNameChar c = true :=
      fun c hc => (hchars c hc).resolve_right fun h => hkelvin (h ▸ hc)
    rw [ofKey, ofText?_of_name hne hall, Option.getD_some]

/-- A key that is spelled like a name at the top leads there. -/
theorem ofKey_of_mem_topNames {key : String} (h : Text.lowerCase key ∈ topNames) :
    ofKey key = [.name (Text.lowerCase key)] := by
  have hnames : ∀ name ∈ topNames, name ≠ "" ∧ name.toList.all isNameChar = true := by
    decide
  refine ofKey_of_lowerCase ?_ (List.all_eq_true.1 (hnames _ h).2)
  rintro rfl
  exact (hnames _ h).1 (by decide +kernel)

end KeyPath

variable {entries entries' : Toml.Entries} {layer : Layer} {values : Setting → Option Int}

/-- A source gives settings numbers if its entries are tame, each value that they give a setting is
its number, and each number is given. -/
theorem Layer.sets_of (htame : ∀ e ∈ layer.entries, Tame e)
    (hgiven : ∀ (s : Setting) v, ∀ e ∈ layer.entries, s.givenBy e = some v →
      ∃ n, values s = some n ∧ s.Gives v n)
    (hall : ∀ (s : Setting) n, values s = some n →
      ∃ e ∈ layer.entries, (s.givenBy e).isSome = true) :
    layer.Sets values := by
  refine ⟨htame, fun s => ?_⟩
  cases hlast : lastTold s.givenBy layer.entries with
  | some v =>
    obtain ⟨e, he, hv⟩ := exists_of_lastTold hlast
    obtain ⟨n, hn, hgives⟩ := hgiven s v e he hv
    rw [hn]
    exact .some hgives
  | none =>
    cases hvalue : values s with
    | none => exact .none
    | some n =>
      obtain ⟨e, he, htold⟩ := hall s n hvalue
      have hsome := isSome_lastTold he htold
      rw [hlast] at hsome
      cases hsome

/-! ### Documents -/

/-- A value stands at names in a table, each in any case. -/
inductive Stands : List String → Toml.Entries → Toml.Value → Prop where
  | here {key name : String} {v : Toml.Value} {entries : Toml.Entries} : (key, v) ∈ entries →
      Text.lowerCase key = name → Stands [name] entries v
  | within {key name : String} {names : List String} {v : Toml.Value}
      {inner entries : Toml.Entries} : (key, .table inner) ∈ entries →
      Text.lowerCase key = name → Stands names inner v → Stands (name :: names) entries v

theorem stands_singleton {name : String} {v : Toml.Value} :
    Stands [name] entries v ↔ ∃ key, (key, v) ∈ entries ∧ Text.lowerCase key = name := by
  constructor
  · intro h
    cases h with
    | here hmem hkey => exact ⟨_, hmem, hkey⟩
    | within _ _ hrest => cases hrest
  · rintro ⟨key, hmem, hkey⟩
    exact .here hmem hkey

theorem stands_pair {name side : String} {v : Toml.Value} :
    Stands [name, side] entries v ↔ ∃ key inner, (key, .table inner) ∈ entries ∧
      Text.lowerCase key = name ∧ Stands [side] inner v := by
  constructor
  · intro h
    cases h with
    | within hmem hkey hrest => exact ⟨_, _, hmem, hkey, hrest⟩
  · rintro ⟨key, inner, hmem, hkey, hrest⟩
    exact .within hmem hkey hrest

theorem not_stands_nil {names : List String} {v : Toml.Value} : ¬ Stands names [] v := by
  intro h
  cases h with
  | here hmem | within hmem => exact List.not_mem_nil hmem

/-- What stands at a name is the value of one of the entries. -/
theorem stands_cons {key name : String} {u v : Toml.Value} :
    Stands [name] ((key, u) :: entries) v ↔
      Text.lowerCase key = name ∧ v = u ∨ Stands [name] entries v := by
  simp only [stands_singleton, List.mem_cons, Prod.mk.injEq, or_and_right, exists_or]
  refine or_congr_left ⟨?_, ?_⟩
  · rintro ⟨_, ⟨rfl, rfl⟩, hkey⟩
    exact ⟨hkey, rfl⟩
  · rintro ⟨hkey, rfl⟩
    exact ⟨key, ⟨rfl, rfl⟩, hkey⟩

/-- What stands at a name of a table within a table is in one of the entries. -/
theorem stands_cons_pair {key name side : String} {u v : Toml.Value} :
    Stands [name, side] ((key, u) :: entries) v ↔
      (Text.lowerCase key = name ∧ ∃ inner, u = .table inner ∧ Stands [side] inner v) ∨
        Stands [name, side] entries v := by
  simp only [stands_pair, List.mem_cons, Prod.mk.injEq, or_and_right, exists_or]
  refine or_congr_left ⟨?_, ?_⟩
  · rintro ⟨_, inner, ⟨rfl, rfl⟩, hkey, hside⟩
    exact ⟨hkey, inner, rfl, hside⟩
  · rintro ⟨hkey, inner, rfl, hside⟩
    exact ⟨key, inner, ⟨rfl, rfl⟩, hkey, hside⟩

/-- What stands at names stands there when the entries come up in another order, rearranged. -/
theorem Stands.exists_right {names : List String} {v : Toml.Value} (h : Stands names entries v)
    (hother : entries.Rearranged entries') : ∃ w, Stands names entries' w ∧ v.Rearranged w := by
  induction h generalizing entries' with
  | here hmem hkey =>
    obtain ⟨w, hw, hvalue⟩ := hother.exists_right hmem
    exact ⟨w, .here hw hkey, hvalue⟩
  | within hmem hkey _ ih =>
    obtain ⟨w, hw, hvalue⟩ := hother.exists_right hmem
    obtain ⟨inner', rfl, hinner⟩ := hvalue.exists_right
    obtain ⟨w, hstands, hvalue⟩ := ih hinner
    exact ⟨w, .within hw hkey hstands, hvalue⟩

/-- What stands at names in another order of the entries stood there before. -/
theorem Stands.exists_left {names : List String} {w : Toml.Value} (h : Stands names entries' w)
    (hother : entries.Rearranged entries') : ∃ v, Stands names entries v ∧ v.Rearranged w := by
  induction h generalizing entries with
  | here hmem hkey =>
    obtain ⟨v, hv, hvalue⟩ := hother.exists_left hmem
    exact ⟨v, .here hv hkey, hvalue⟩
  | within hmem hkey _ ih =>
    obtain ⟨v, hv, hvalue⟩ := hother.exists_left hmem
    obtain ⟨inner, rfl, hinner⟩ := hvalue.exists_left
    obtain ⟨v, hstands, hvalue⟩ := ih hinner
    exact ⟨v, .within hv hkey hstands, hvalue⟩

/-- A name at the top is that of the boundary, or of a setting. -/
theorem eq_boundary_or_exists {name : String} (h : name ∈ topNames) :
    name = "boundary" ∨ ∃ s : Setting, s.names = [name] := by
  simp only [topNames, List.mem_cons, List.not_mem_nil, or_false] at h
  rcases h with rfl | rfl | rfl | rfl | rfl
  · exact .inr ⟨.cells, rfl⟩
  · exact .inr ⟨.messageWords, rfl⟩
  · exact .inr ⟨.iterations, rfl⟩
  · exact .inr ⟨.linkCapacity, rfl⟩
  · exact .inl rfl

/-- A document sets settings to whole numbers of their ranges: what stands at their names is these
numbers, the boundary is a table, and all other keys lead elsewhere. -/
structure DocumentSets (entries : Toml.Entries) (file : Setting → Option Int) : Prop where
  stands : ∀ (s : Setting) v, Stands s.names entries v ↔ ∃ n, file s = some n ∧ v = .integer n
  fits : ∀ (s : Setting) n, file s = some n → s.Fits n
  boundary : ∀ key v, (key, v) ∈ entries → Text.lowerCase key = "boundary" →
    ∃ inner, v = .table inner
  further : ∀ e ∈ entries, Text.lowerCase e.1 ∉ topNames → isFurther e.1 = true

namespace DocumentSets

variable {file : Setting → Option Int} {s : Setting} {key : String} {v w : Toml.Value}

/-- What a document sets does not depend on the order of its entries. -/
theorem rearranged (h : DocumentSets entries file) (hother : entries.Rearranged entries') :
    DocumentSets entries' file := by
  refine ⟨fun s v => ⟨fun hstands => ?_, ?_⟩, h.fits, fun key v hmem hname => ?_,
    fun e he hname => ?_⟩
  · obtain ⟨u, hu, hvalue⟩ := hstands.exists_left hother
    obtain ⟨n, hn, rfl⟩ := (h.stands s u).1 hu
    exact ⟨n, hn, hvalue.eq nofun⟩
  · rintro ⟨n, hn, rfl⟩
    obtain ⟨w, hw, hvalue⟩ := ((h.stands s (.integer n)).2 ⟨n, hn, rfl⟩).exists_right hother
    rwa [hvalue.eq nofun] at hw
  · obtain ⟨u, hu, hvalue⟩ := hother.exists_left hmem
    obtain ⟨inner, rfl⟩ := h.boundary key u hu hname
    obtain ⟨inner', hv, -⟩ := hvalue.exists_right
    exact ⟨inner', hv⟩
  · obtain ⟨v, hv, -⟩ := hother.exists_left he
    exact h.further (e.1, v) hv hname

/-- What stands in the place of a setting is no table. -/
theorem plain (h : DocumentSets entries file) (hstands : Stands s.names entries v) : v.Plain := by
  obtain ⟨n, -, rfl⟩ := (h.stands s v).1 hstands
  exact nofun

/-- The entries of a document are tame. -/
theorem tame (h : DocumentSets entries file) (hmem : (key, v) ∈ entries) : Tame (key, v) := by
  by_cases htop : Text.lowerCase key ∈ topNames
  · have hkey := KeyPath.ofKey_of_mem_topNames htop
    rcases eq_boundary_or_exists htop with hname | ⟨s, hnames⟩
    · obtain ⟨inner, rfl⟩ := h.boundary key v hmem hname
      rw [hname] at hkey
      exact .sides hkey fun d k w hk hside =>
        h.plain (s := .side d) (.within hmem hname (.here hk hside))
    · have hstands : Stands s.names entries v := by
        rw [hnames]
        exact .here hmem rfl
      refine .setting s (hkey.trans ?_) (h.plain hstands)
      rw [Setting.path, hnames, List.map_singleton]
  · exact .further (h.further (key, v) hmem htop)

/-- What an entry of a document gives a setting stands at its names. -/
theorem stands_of_givenBy (h : DocumentSets entries file) (hmem : (key, v) ∈ entries)
    (hgiven : s.givenBy (key, v) = some w) : Stands s.names entries w := by
  have htop : Text.lowerCase key ∈ topNames := by
    by_contra hother
    rw [s.givenBy_of_further (h.further (key, v) hmem hother)] at hgiven
    cases hgiven
  have hkey := KeyPath.ofKey_of_mem_topNames htop
  rw [Setting.givenBy] at hgiven
  split at hgiven
  · next hplace =>
    obtain rfl := Option.some.inj hgiven
    obtain ⟨name, hnames, hname⟩ := List.map_eq_singleton_iff.1 (hplace.symm.trans hkey)
    rw [hnames]
    exact .here hmem (Step.name.inj hname).symm
  · split at hgiven
    · next hboundary =>
      have hname : Text.lowerCase key = "boundary" := by
        simpa only [List.cons.injEq, Step.name.injEq, and_true] using hkey.symm.trans hboundary
      cases s with
      | side d =>
        obtain ⟨inner, rfl⟩ := h.boundary key v hmem hname
        obtain ⟨k, hk, hside⟩ := Tree.exists_of_lastNamed hgiven
        exact .within hmem hname (.here hk hside)
      | cells | messageWords | iterations | linkCapacity => cases hgiven
    · cases hgiven

/-- What stands at the names of a setting is given to it by an entry. -/
theorem exists_givenBy (hstands : Stands s.names entries w) :
    ∃ e ∈ entries, (s.givenBy e).isSome = true := by
  have hsingle : ∀ name ∈ topNames, s.names = [name] →
      ∃ e ∈ entries, (s.givenBy e).isSome = true := by
    intro name htop hnames
    rw [hnames, stands_singleton] at hstands
    obtain ⟨key, hmem, rfl⟩ := hstands
    refine ⟨(key, w), hmem, ?_⟩
    rw [Setting.givenBy, if_pos, Option.isSome_some]
    rw [KeyPath.ofKey_of_mem_topNames htop, Setting.path, hnames, List.map_singleton]
  cases s with
  | cells | messageWords | iterations | linkCapacity => exact hsingle _ (by decide) rfl
  | side d =>
    obtain ⟨key, inner, hmem, hname, hside⟩ := stands_pair.1 hstands
    obtain ⟨k, hk, hlower⟩ := stands_singleton.1 hside
    have hkey := KeyPath.ofKey_of_mem_topNames (hname ▸ by decide : Text.lowerCase key ∈ topNames)
    rw [hname] at hkey
    refine ⟨(key, .table inner), hmem, ?_⟩
    rw [Setting.givenBy, hkey, if_neg (Ne.symm (Setting.path_ne_boundary _)), if_pos rfl]
    exact Tree.isSome_lastNamed hk hlower

/-- **A document is a source of the numbers that it sets**, in every order of its entries. -/
theorem sets (hdocument : DocumentSets layer.entries file) {layer' : Layer}
    (hother : layer.Rearranged layer') : layer'.Sets file := by
  have h := hdocument.rearranged hother.entries
  refine Layer.sets_of (fun e he => h.tame he) (fun s v e he hgiven => ?_) fun s n hn => ?_
  · obtain ⟨n, hn, rfl⟩ := (h.stands s v).1 (h.stands_of_givenBy he hgiven)
    exact ⟨n, hn, .integer (h.fits s n hn)⟩
  · exact exists_givenBy ((h.stands s (.integer n)).2 ⟨n, hn, rfl⟩)

end DocumentSets

/-! ### Environments -/

/-- An environment sets settings to numbers of their ranges: the texts of their variables are decimal
texts of these numbers, and all other variables that are keys lead elsewhere. -/
structure EnvironmentSets (environment : List (String × String)) (env : Setting → Option Int) :
    Prop where
  decimal : ∀ (s : Setting) name text, (name, text) ∈ environment →
    Text.lowerCase name = s.variableName → ∃ n, env s = some n ∧ Decimal s.signed text n
  set : ∀ (s : Setting) n, env s = some n →
    ∃ name text, (name, text) ∈ environment ∧ Text.lowerCase name = s.variableName
  fits : ∀ (s : Setting) n, env s = some n → s.Fits n
  further : ∀ name text key, (name, text) ∈ environment →
    (∀ s : Setting, Text.lowerCase name ≠ s.variableName) → Layer.keyOf? name = some key →
    isFurther key = true

/-- The variable of a setting leads to its place, in any case. -/
theorem Layer.exists_keyOf? {name : String} {s : Setting}
    (h : Text.lowerCase name = s.variableName) :
    ∃ key, keyOf? name = some key ∧ KeyPath.ofKey key = s.path := by
  rw [keyOf?, h]
  rcases s with _ | _ | _ | _ | _ | _ | _ | _ <;> exact ⟨_, rfl, by decide +kernel⟩

/-- A variable is that of one setting only. -/
theorem Setting.eq_of_variableName {name : String} {s r : Setting}
    (hs : Text.lowerCase name = s.variableName) (hr : Text.lowerCase name = r.variableName) :
    s = r := by
  obtain ⟨key, hkey, hplace⟩ := Layer.exists_keyOf? hs
  obtain ⟨key', hkey', hplace'⟩ := Layer.exists_keyOf? hr
  obtain rfl := Option.some.inj (hkey.symm.trans hkey')
  exact Setting.path_injective (hplace.symm.trans hplace')

namespace EnvironmentSets

variable {environment : List (String × String)} {env : Setting → Option Int} {s : Setting}
  {name text key : String} {v w : Toml.Value}

/-- An entry of an environment is the text of a variable. -/
theorem exists_variable (hlayer : (Layer.ofEnvironment environment).Rearranged layer)
    {e : String × Toml.Value} (he : e ∈ layer.entries) : ∃ name text key,
      (name, text) ∈ environment ∧ Layer.keyOf? name = some key ∧ e = (key, .text text) := by
  obtain ⟨v, hv, hvalue⟩ := hlayer.entries.exists_left he
  obtain ⟨⟨name, text⟩, hmem, htold⟩ :=
    List.mem_filterMap.1 (Layer.mem_of_mem_lastOfEach hv)
  obtain ⟨key, hkey, hentry⟩ := Option.map_eq_some_iff.1 htold
  obtain ⟨rfl, rfl⟩ := Prod.mk.inj hentry
  exact ⟨name, text, e.1, hmem, hkey, congrArg (Prod.mk e.1) (hvalue.eq nofun)⟩

/-- Each variable that is a key has an entry for its key. -/
theorem exists_entry (hlayer : (Layer.ofEnvironment environment).Rearranged layer)
    (hmem : (name, text) ∈ environment) (hkey : Layer.keyOf? name = some key) :
    ∃ v, (key, v) ∈ layer.entries := by
  obtain ⟨v, hv⟩ : ∃ v, (key, v) ∈ (Layer.ofEnvironment environment).entries :=
    Layer.exists_mem_lastOfEach
      (List.mem_filterMap.2 ⟨(name, text), hmem, Option.map_eq_some_iff.2 ⟨key, hkey, rfl⟩⟩)
  obtain ⟨w, hw, -⟩ := hlayer.entries.exists_right hv
  exact ⟨w, hw⟩

/-- A variable that is a key leads to a setting whose variable it is, or elsewhere. -/
theorem place (h : EnvironmentSets environment env) (hmem : (name, text) ∈ environment)
    (hkey : Layer.keyOf? name = some key) :
    isFurther key = true ∨
      ∃ s : Setting, Text.lowerCase name = s.variableName ∧ KeyPath.ofKey key = s.path := by
  by_cases hvariable : ∃ s : Setting, Text.lowerCase name = s.variableName
  · obtain ⟨s, hs⟩ := hvariable
    obtain ⟨key', hkey', hplace⟩ := Layer.exists_keyOf? hs
    obtain rfl := Option.some.inj (hkey.symm.trans hkey')
    exact .inr ⟨s, hs, hplace⟩
  · exact .inl (h.further name text key hmem (not_exists.1 hvariable) hkey)

/-- **An environment is a source of the numbers that it sets**, in every order of its entries. -/
theorem sets (h : EnvironmentSets environment env)
    (hlayer : (Layer.ofEnvironment environment).Rearranged layer) : layer.Sets env := by
  refine Layer.sets_of (fun e he => ?_) (fun s v e he hgiven => ?_) fun s n hn => ?_
  · obtain ⟨name, text, key, hmem, hkey, rfl⟩ := exists_variable hlayer he
    rcases h.place hmem hkey with hfurther | ⟨s, -, hplace⟩
    · exact .further hfurther
    · exact .setting s hplace nofun
  · obtain ⟨name, text, key, hmem, hkey, rfl⟩ := exists_variable hlayer he
    rcases h.place hmem hkey with hfurther | ⟨r, hname, hplace⟩
    · rw [s.givenBy_of_further hfurther] at hgiven
      cases hgiven
    · have hsides := r.path_ne_boundary
      rw [Setting.givenBy, hplace, if_neg hsides] at hgiven
      split at hgiven
      · next hsame =>
        obtain rfl := Setting.path_injective hsame
        obtain rfl := Option.some.inj hgiven
        obtain ⟨n, hn, hdecimal⟩ := h.decimal r name text hmem hname
        exact ⟨n, hn, .text (h.fits r n hn) hdecimal⟩
      · cases hgiven
  · obtain ⟨name, text, hmem, hname⟩ := h.set s n hn
    obtain ⟨key, hkey, hplace⟩ := Layer.exists_keyOf? hname
    obtain ⟨v, hv⟩ := exists_entry hlayer hmem hkey
    refine ⟨(key, v), hv, ?_⟩
    rw [Setting.givenBy, if_pos hplace, Option.isSome_some]

end EnvironmentSets
end Settings
end DiffusionMesh
