/-
# Sources laid over one another

A source is laid over the sources before it entry by entry. An entry is tame if it does one of three
things:

| the entry | the eight places | all other places |
| --- | --- | --- |
| gives one setting a plain value | that value at the place of the setting | as before |
| is a table of sides | the last value of each side that it has | as before |
| leads elsewhere | as before | changed |

So at each of the eight places the last value that is given stands, whatever happens at the other
places (`Tree.find?_laidOver`), and whether the other entries can be laid does not depend on the
settings (`Alike.laidOver`). Main statement: `load_layered`.
-/

import DiffusionMesh.Proofs.Settings.Reading
import Mathlib.Data.List.Forall2

namespace DiffusionMesh

/-- A value that is no table. -/
def Toml.Value.Plain (v : Toml.Value) : Prop := ∀ entries, v ≠ .table entries

/-- What the last of some things that tells anything tells. -/
def lastTold {α β : Type} (tells : α → Option β) (things : List α) : Option β :=
  things.reverse.findSome? tells

theorem lastTold_cons {α β : Type} (tells : α → Option β) (a : α) (things : List α) :
    lastTold tells (a :: things) = (lastTold tells things).or (tells a) := by
  rw [lastTold, List.reverse_cons, List.findSome?_append, List.findSome?_singleton, lastTold]

namespace Settings

variable {t t' u : Tree} {origin : Option String} {v : Toml.Value} {key name : String}
  {path : KeyPath} {entries : Toml.Entries} {s : Setting}

namespace Tree

/-! ### Entries of a table -/

/-- The value of the last entry of a name, in any case. -/
def lastNamed (name : String) : Toml.Entries → Option Toml.Value :=
  lastTold fun (key, v) => if Text.lowerCase key = name then some v else none

theorem overlay_of_plain (h : v.Plain) (t : Tree) : overlay origin v t = .given v origin := by
  cases v with
  | table entries => exact absurd rfl (h entries)
  | _ => simp [overlay]

/-- A change at a name leaves a table. -/
theorem isSome_entries?_atName (change : Tree → Tree) (key : String) (t : Tree) :
    (t.atName change key).entries?.isSome = true := rfl

theorem isSome_entries?_overlayEntries (h : t.entries?.isSome = true) :
    (overlayEntries origin entries t).entries?.isSome = true := by
  induction entries generalizing t with
  | nil =>
    rw [overlayEntries]
    exact h
  | cons entry rest ih =>
    obtain ⟨key, v⟩ := entry
    rw [overlayEntries, overlayEntry]
    exact ih (isSome_entries?_atName ..)

/-- **The last entry of a name stands**, after the entries of a table have been laid over a tree. -/
theorem child?_overlayEntries
    (hplain : ∀ key v, (key, v) ∈ entries → Text.lowerCase key = name → v.Plain) :
    (overlayEntries origin entries t).child? name =
      ((lastNamed name entries).map (.given · origin)).or (t.child? name) := by
  induction entries generalizing t with
  | nil =>
    rw [overlayEntries]
    rfl
  | cons entry rest ih =>
    obtain ⟨key, v⟩ := entry
    have hrest := fun key v hmem => hplain key v (List.mem_cons_of_mem _ hmem)
    rw [overlayEntries, overlayEntry, ih hrest, child?_atName, lastNamed, lastTold_cons,
      Option.map_or, Option.or_assoc]
    congr 1
    by_cases hkey : Text.lowerCase key = name
    · rw [if_pos hkey.symm, overlay_of_plain (hplain key v List.mem_cons_self hkey)]
      simp only [if_pos hkey]
      rfl
    · rw [if_neg (Ne.symm hkey)]
      simp only [if_neg hkey]
      rfl

/-! ### Paths -/

theorem set_name (origin : Option String) (v : Toml.Value) (key : String) (path : KeyPath)
    (t : Tree) : t.set origin v (.name key :: path) =
      (set origin v path ((t.child? key).getD .nothing)).map fun inner =>
        t.atName (fun _ => inner) key := by
  rw [set]
  cases set origin v path ((t.child? key).getD .nothing) <;> rfl

/-- **A path changes nothing but what is under its first name.** -/
theorem child?_set (h : t.set origin v (.name key :: path) = some t') : ∃ inner,
    set origin v path ((t.child? key).getD .nothing) = some inner ∧
      ∀ name, t'.child? name = if name = key then some inner else t.child? name := by
  rw [set_name] at h
  obtain ⟨inner, hinner, rfl⟩ := Option.map_eq_some_iff.1 h
  exact ⟨inner, hinner, fun name => child?_atName _ key name t⟩

/-- A plain value stands at the end of its path. -/
theorem find?_set_self {names : List String} (hplain : v.Plain)
    (h : t.set origin v (names.map .name) = some t') :
    t'.find? (names.map .name) = some (.given v origin) := by
  induction names generalizing t t' with
  | nil =>
    rw [List.map_nil, set] at h
    obtain rfl := Option.some.inj h
    rw [overlay_of_plain hplain]
    rfl
  | cons name names ih =>
    obtain ⟨inner, hinner, hchild⟩ := child?_set h
    rw [List.map_cons, find?, hchild, if_pos rfl, Option.bind_some, ih hinner]

/-- A path leaves alone what is at the end of another, if neither leads through the other. -/
theorem find?_set_other {names others : List String} (hnames : ¬ names <+: others)
    (hothers : ¬ others <+: names) (h : t.set origin v (names.map .name) = some t') :
    t'.find? (others.map .name) = t.find? (others.map .name) := by
  induction names generalizing others t t' with
  | nil => exact absurd List.nil_prefix hnames
  | cons name names ih =>
    obtain ⟨inner, hinner, hchild⟩ := child?_set h
    cases others with
    | nil => exact absurd List.nil_prefix hothers
    | cons other others =>
      rw [List.map_cons, find?, find?, hchild]
      split
      · next hsame =>
        subst hsame
        rw [List.cons_prefix_cons, and_iff_right rfl] at hnames hothers
        rw [Option.bind_some, ih hnames hothers hinner]
        cases t.child? other with
        | some inner => rfl
        | none =>
          cases others with
          | nil => exact absurd List.nil_prefix hothers
          | cons => rfl
      · rfl

end Tree

/-! ### Entries of a source -/

/-- The names at the top of the tree that lead to settings. -/
def topNames : List String := ["cells", "message_words", "iterations", "link_capacity", "boundary"]

/-- A key that leads to no setting. -/
def isFurther (key : String) : Bool :=
  match KeyPath.ofKey key with
  | .name name :: _ => !topNames.contains name
  | _ => true

/-- What a table of sides gives a setting. -/
def Setting.amongSides : Setting → Toml.Value → Option Toml.Value
  | .side d, .table entries => Tree.lastNamed d.key entries
  | _, _ => none

/-- What an entry of a source gives a setting, at its own place or in a table of sides. -/
def Setting.givenBy (s : Setting) (entry : String × Toml.Value) : Option Toml.Value :=
  if KeyPath.ofKey entry.1 = s.path then some entry.2
  else if KeyPath.ofKey entry.1 = [.name "boundary"] then s.amongSides entry.2
  else none

/-- An entry of a source that gives plain values to settings, or leads to no setting. -/
inductive Tame : String × Toml.Value → Prop where
  | further {key : String} {v : Toml.Value} : isFurther key = true → Tame (key, v)
  | setting {key : String} {v : Toml.Value} (s : Setting) : KeyPath.ofKey key = s.path → v.Plain →
      Tame (key, v)
  | sides {key : String} {entries : Toml.Entries} : KeyPath.ofKey key = [.name "boundary"] →
      (∀ (d : Direction) k v, (k, v) ∈ entries → Text.lowerCase k = d.key → v.Plain) →
      Tame (key, .table entries)

/-- Every key leads to a name first. -/
theorem KeyPath.exists_ofKey (key : String) : ∃ name path, ofKey key = .name name :: path := by
  have hname : ∀ cs step rest, name? cs = some (step, rest) → ∃ name, step = .name name := by
    intro cs step rest h
    simp only [name?] at h
    split at h
    · cases h
    · obtain ⟨rfl, -⟩ := Prod.mk.inj (Option.some.inj h)
      exact ⟨_, rfl⟩
  rw [ofKey]
  cases hread : ofText? key with
  | none => exact ⟨_, _, rfl⟩
  | some path =>
    rw [ofText?] at hread
    obtain ⟨⟨step, rest⟩, hstep, hread⟩ := Option.bind_eq_some_iff.1 hread
    obtain ⟨path', -, hread⟩ := Option.bind_eq_some_iff.1 hread
    obtain rfl := Option.some.inj hread
    obtain ⟨name, rfl⟩ := hname _ _ _ hstep
    exact ⟨name, path', rfl⟩

/-- Each setting is under one of the names at the top. -/
theorem Setting.exists_path (s : Setting) :
    ∃ name rest, s.path = .name name :: rest ∧ name ∈ topNames := by
  cases s with
  | cells | messageWords | iterations | linkCapacity | side => exact ⟨_, _, rfl, by decide⟩

/-- No setting leads through another. -/
theorem Setting.eq_of_prefix {s r : Setting} (h : s.names <+: r.names) : s = r := by
  revert h
  rcases s with _ | _ | _ | _ | _ | _ | _ | _ <;> rcases r with _ | _ | _ | _ | _ | _ | _ | _ <;>
    decide

theorem Setting.path_injective {s r : Setting} (h : s.path = r.path) : s = r := by
  have hnames : s.names = r.names :=
    List.map_inj_right (fun _ _ hname => Step.name.inj hname) |>.1 h
  exact eq_of_prefix (hnames ▸ List.prefix_rfl)

theorem Setting.path_ne_boundary (s : Setting) : s.path ≠ [.name "boundary"] := by
  cases s with
  | cells | messageWords | iterations | linkCapacity => decide
  | side => exact nofun

/-- A key that leads elsewhere gives no setting anything. -/
theorem Setting.givenBy_of_further (h : isFurther key = true) (s : Setting) (v : Toml.Value) :
    s.givenBy (key, v) = none := by
  obtain ⟨name, path, hkey⟩ := KeyPath.exists_ofKey key
  have hname : name ∉ topNames := by simpa [isFurther, hkey] using h
  obtain ⟨top, rest, hpath, htop⟩ := s.exists_path
  have hplace : KeyPath.ofKey key ≠ s.path := by
    rw [hkey, hpath]
    rintro ⟨⟩
    exact hname htop
  have hsides : KeyPath.ofKey key ≠ [.name "boundary"] := by
    rw [hkey]
    rintro ⟨⟩
    exact hname (by decide)
  rw [givenBy, if_neg hplace, if_neg hsides]

namespace Tree

/-- A path that leads elsewhere changes no setting. -/
theorem find?_set_further (hfurther : isFurther key = true)
    (h : t.set origin v (KeyPath.ofKey key) = some t') :
    (∀ name ∈ topNames, t'.child? name = t.child? name) ∧
      ∀ s : Setting, t'.find? s.path = t.find? s.path := by
  obtain ⟨name, path, hkey⟩ := KeyPath.exists_ofKey key
  have hname : name ∉ topNames := by simpa [isFurther, hkey] using hfurther
  rw [hkey] at h
  obtain ⟨inner, -, hchild⟩ := child?_set h
  have hsame : ∀ top ∈ topNames, t'.child? top = t.child? top := by
    intro top htop
    rw [hchild, if_neg]
    rintro rfl
    exact hname htop
  refine ⟨hsame, fun s => ?_⟩
  obtain ⟨top, rest, hpath, htop⟩ := s.exists_path
  rw [hpath, find?, find?, hsame top htop]

/-- A plain value that is given to one setting changes no other. -/
theorem find?_set_setting {r : Setting} (hplain : v.Plain) (h : t.set origin v r.path = some t')
    (s : Setting) :
    t'.find? s.path = if r = s then some (.given v origin) else t.find? s.path := by
  split
  · next hsame =>
    subst hsame
    exact find?_set_self hplain h
  · next hother =>
    exact find?_set_other (fun hprefix => hother (Setting.eq_of_prefix hprefix))
      (fun hprefix => hother (Setting.eq_of_prefix hprefix).symm) h

/-- The place of the boundary keeps a table when a setting is given. -/
theorem Grouped.set_setting {r : Setting} (hgrouped : t.Grouped)
    (h : t.set origin v r.path = some t') : t'.Grouped := by
  intro b hb
  cases r with
  | cells | messageWords | iterations | linkCapacity =>
    obtain ⟨inner, -, hchild⟩ := child?_set h
    rw [hchild, if_neg (by decide)] at hb
    exact hgrouped b hb
  | side d =>
    obtain ⟨inner, hinner, hchild⟩ := child?_set h
    rw [hchild, if_pos rfl] at hb
    obtain rfl := Option.some.inj hb
    rw [List.map_singleton, set_name] at hinner
    obtain ⟨_, -, rfl⟩ := Option.map_eq_some_iff.1 hinner
    exact isSome_entries?_atName ..

/-- A table that is laid over the boundary finds a table there, if only an empty one. -/
theorem Grouped.overlay_table (hgrouped : t.Grouped) (origin : Option String)
    (entries : Toml.Entries) : ∃ base,
      overlay origin (.table entries) ((t.child? "boundary").getD .nothing) =
        overlayEntries origin entries base ∧
      base.entries?.isSome = true ∧
      ∀ name, base.child? name = (t.child? "boundary").bind (child? name) := by
  cases hb : t.child? "boundary" with
  | none => exact ⟨.table [] none, by rw [Option.getD_none, overlay], rfl, fun name => rfl⟩
  | some b =>
    refine ⟨b, ?_, hgrouped b hb, fun name => rfl⟩
    have hentries := hgrouped b hb
    cases b with
    | nothing => cases hentries
    | _ => simp [overlay]

/-- A table of sides that is laid over the boundary gives each side its last value. -/
theorem find?_set_sides (hgrouped : t.Grouped)
    (hplain : ∀ (d : Direction) k v, (k, v) ∈ entries → Text.lowerCase k = d.key → v.Plain)
    (h : t.set origin (.table entries) [.name "boundary"] = some t') :
    t'.Grouped ∧ (∀ name, name ≠ "boundary" → t'.child? name = t.child? name) ∧
      ∀ d : Direction, t'.find? (Setting.side d).path =
        ((lastNamed d.key entries).map (.given · origin)).or (t.find? (Setting.side d).path) := by
  obtain ⟨inner, hinner, hchild⟩ := child?_set h
  rw [set] at hinner
  obtain rfl := Option.some.inj hinner
  obtain ⟨base, hlaid, hbase, hsame⟩ := hgrouped.overlay_table origin entries
  rw [hlaid] at hchild
  refine ⟨fun b hb => ?_, fun name hname => by rw [hchild, if_neg hname], fun d => ?_⟩
  · rw [hchild, if_pos rfl] at hb
    obtain rfl := Option.some.inj hb
    exact isSome_entries?_overlayEntries hbase
  · have hplace : ∀ t : Tree, t.find? (Setting.side d).path =
        (t.child? "boundary").bind (child? d.key) := by
      intro t
      change (t.child? "boundary").bind (find? [.name d.key]) = _
      exact congrArg _ (funext fun b => b.find?_name d.key)
    rw [hplace, hplace, hchild, if_pos rfl, Option.bind_some, child?_overlayEntries (hplain d),
      hsame]

/-- **An entry gives a setting what it says, and leaves it alone if it says nothing.** -/
theorem find?_set (htame : Tame (key, v)) (hgrouped : t.Grouped)
    (h : t.set origin v (KeyPath.ofKey key) = some t') : t'.Grouped ∧ ∀ s : Setting,
      t'.find? s.path = ((s.givenBy (key, v)).map (.given · origin)).or (t.find? s.path) := by
  cases htame with
  | further hfurther =>
    obtain ⟨hchild, hfind⟩ := find?_set_further hfurther h
    refine ⟨fun b hb => hgrouped b ((hchild _ (by decide)).symm.trans hb), fun s => ?_⟩
    rw [hfind, s.givenBy_of_further hfurther]
    rfl
  | setting r hkey hplain =>
    rw [hkey] at h
    refine ⟨hgrouped.set_setting h, fun s => ?_⟩
    rw [find?_set_setting hplain h, Setting.givenBy, hkey]
    by_cases hsame : r = s
    · rw [if_pos hsame, if_pos (congrArg _ hsame)]
      rfl
    · rw [if_neg hsame, if_neg (fun hpath => hsame (Setting.path_injective hpath)),
        if_neg r.path_ne_boundary]
      rfl
  | sides hkey hplain =>
    rw [hkey] at h
    obtain ⟨hgrouped', hchild, hfind⟩ := find?_set_sides hgrouped hplain h
    refine ⟨hgrouped', fun s => ?_⟩
    rw [Setting.givenBy, hkey, if_neg (Ne.symm s.path_ne_boundary), if_pos rfl]
    cases s with
    | side d => exact hfind d
    | cells | messageWords | iterations | linkCapacity =>
      change (t'.child? _).bind _ = (t.child? _).bind _
      rw [hchild _ (by decide)]

end Tree

/-! ### Sources -/

variable {layer : Layer} {fault : LoadFault} {values : Setting → Option Int}

/-- A source is laid over a tree entry by entry. -/
theorem Layer.laidOver_cons (origin : Option String) (key : String) (v : Toml.Value)
    (rest : Toml.Entries) (t : Tree) :
    Layer.laidOver ⟨origin, (key, v) :: rest⟩ t =
      match t.set origin v (KeyPath.ofKey key) with
      | none => .error (.outOfReach key)
      | some t' => Layer.laidOver ⟨origin, rest⟩ t' := by
  rw [laidOver, List.foldlM_cons]
  cases hset : t.set origin v (KeyPath.ofKey key) with
  | none =>
    simp only [hset]
    rfl
  | some t' =>
    simp only [hset]
    rfl

/-- **At each of the eight places the last value that a source gives stands.** -/
theorem Tree.find?_laidOver (htame : ∀ e ∈ layer.entries, Tame e) (hgrouped : t.Grouped)
    (h : layer.laidOver t = .ok t') : t'.Grouped ∧ ∀ s : Setting, t'.find? s.path =
      ((lastTold s.givenBy layer.entries).map (.given · layer.origin)).or (t.find? s.path) := by
  obtain ⟨origin, entries⟩ := layer
  induction entries generalizing t with
  | nil =>
    obtain rfl := Except.ok.inj h
    exact ⟨hgrouped, fun s => rfl⟩
  | cons entry rest ih =>
    obtain ⟨key, v⟩ := entry
    obtain ⟨hfirst, hrest⟩ := List.forall_mem_cons.1 htame
    rw [Layer.laidOver_cons] at h
    cases hset : t.set origin v (KeyPath.ofKey key) with
    | none =>
      rw [hset] at h
      cases h
    | some next =>
      rw [hset] at h
      obtain ⟨hgrouped, hfind⟩ := find?_set hfirst hgrouped hset
      obtain ⟨hgrouped, hlaid⟩ := ih hgrouped hrest h
      refine ⟨hgrouped, fun s => ?_⟩
      rw [hlaid, hfind, lastTold_cons, Option.map_or, Option.or_assoc]

/-- A source whose entries are tame and give settings the stated numbers. -/
structure Layer.Sets (layer : Layer) (values : Setting → Option Int) : Prop where
  tame : ∀ e ∈ layer.entries, Tame e
  gives : ∀ s : Setting, Option.Rel s.Gives (lastTold s.givenBy layer.entries) (values s)

/-- **Numbers of a source come before those of the sources before it**, setting by setting. -/
theorem Tree.Settled.laidOver {given : Setting → Option Int} (h : t.Settled values)
    (hsets : layer.Sets given) (hlaid : layer.laidOver t = .ok t') :
    t'.Settled fun s => (given s).or (values s) := by
  obtain ⟨hgrouped, hfind⟩ := find?_laidOver hsets.tame h.grouped hlaid
  refine ⟨hgrouped, fun s => ?_⟩
  rw [hfind]
  have hgives := hsets.gives s
  cases hlast : lastTold s.givenBy layer.entries with
  | none =>
    rw [hlast] at hgives
    cases hvalue : given s with
    | none => exact h.reads s
    | some n =>
      rw [hvalue] at hgives
      cases hgives
  | some v =>
    rw [hlast] at hgives
    cases hvalue : given s with
    | none =>
      rw [hvalue] at hgives
      cases hgives
    | some n =>
      rw [hvalue] at hgives
      cases hgives with
      | some hgives => exact .some ⟨v, layer.origin, rfl, hgives⟩

/-! ### Keys that lead elsewhere -/

/-- The keys of a source that lead elsewhere, with their values. -/
def Layer.further (layer : Layer) : Layer :=
  { layer with entries := layer.entries.filter fun e => isFurther e.1 }

/-- The keys that lead elsewhere come up in the order in which all keys do. -/
theorem Layer.Rearranged.further {layer layer' : Layer} (h : layer.Rearranged layer') :
    layer.further.Rearranged layer'.further :=
  ⟨h.origin, h.entries.filter isFurther⟩

/-- A step that asks for a place before the start of a sequence, if that is short, or for one that no
sequence has room for. -/
def Step.isTooFar : Step → Bool
  | .index i => i < 0 || (Tree.room : Int) ≤ i
  | .name _ => false

/-- A key with such a step. -/
def asksTooFar (key : String) : Bool := (KeyPath.ofKey key).any Step.isTooFar

/-- Two trees with the same at all names that lead to no setting. -/
def Tree.AgreeElsewhere (t u : Tree) : Prop :=
  ∀ name, name ∉ topNames → t.child? name = u.child? name

/-- Two outcomes are alike: trees that agree elsewhere, or the same fault. -/
inductive Alike : Except LoadFault Tree → Except LoadFault Tree → Prop where
  | ok {t u : Tree} : t.AgreeElsewhere u → Alike (.ok t) (.ok u)
  | error (fault : LoadFault) : Alike (.error fault) (.error fault)

/-- A place that a sequence does not have is too far. -/
theorem Tree.isTooFar_of_placeOf? {i : Int} (h : t.placeOf? i = none) :
    (Step.index i).isTooFar = true := by
  rw [Step.isTooFar, Bool.or_eq_true, decide_eq_true_eq, decide_eq_true_eq]
  rw [placeOf?] at h
  split at h
  · split at h
    · cases h
    · omega
  · omega

/-- **Only an index can be too far.** -/
theorem Tree.any_isTooFar_of_set (h : t.set origin v path = none) :
    path.any Step.isTooFar = true := by
  induction path generalizing t with
  | nil =>
    rw [set] at h
    cases h
  | cons step rest ih =>
    rw [List.any_cons, Bool.or_eq_true]
    cases step with
    | name key =>
      rw [set_name, Option.map_eq_none_iff] at h
      exact .inr (ih h)
    | index i =>
      cases hplace : t.placeOf? i with
      | none => exact .inl (isTooFar_of_placeOf? hplace)
      | some place =>
        cases rest with
        | nil => simp [set, hplace] at h
        | cons next rest =>
          cases hinner : set origin v (next :: rest) ((t.item? place).getD .nothing) with
          | none => exact .inr (ih hinner)
          | some inner => simp [set, hplace, hinner] at h

/-- A source that cannot be laid has a key that asks too far. -/
theorem Layer.asksTooFar_of_laidOver (h : layer.laidOver t = .error fault) :
    ∃ e ∈ layer.entries, fault = .outOfReach e.1 ∧ asksTooFar e.1 = true := by
  obtain ⟨origin, entries⟩ := layer
  induction entries generalizing t with
  | nil => cases h
  | cons entry rest ih =>
    obtain ⟨key, v⟩ := entry
    rw [laidOver_cons] at h
    cases hset : t.set origin v (KeyPath.ofKey key) with
    | none =>
      rw [hset] at h
      cases h
      exact ⟨(key, v), List.mem_cons_self, rfl, Tree.any_isTooFar_of_set hset⟩
    | some next =>
      rw [hset] at h
      obtain ⟨e, he, hfault⟩ := ih h
      exact ⟨e, List.mem_cons_of_mem _ he, hfault⟩

/-- A path is laid alike over trees with the same under its first name. -/
theorem Tree.AgreeElsewhere.set (h : t.AgreeElsewhere u) (hfurther : isFurther key = true)
    (origin : Option String) (v : Toml.Value) :
    (t.set origin v (KeyPath.ofKey key) = none ∧ u.set origin v (KeyPath.ofKey key) = none) ∨
      ∃ t' u', t.set origin v (KeyPath.ofKey key) = some t' ∧
        u.set origin v (KeyPath.ofKey key) = some u' ∧ t'.AgreeElsewhere u' := by
  obtain ⟨name, path, hkey⟩ := KeyPath.exists_ofKey key
  have hname : name ∉ topNames := by simpa [isFurther, hkey] using hfurther
  rw [hkey, set_name, set_name, h name hname]
  cases Tree.set origin v path ((u.child? name).getD .nothing) with
  | none => exact .inl ⟨rfl, rfl⟩
  | some inner =>
    refine .inr ⟨_, _, rfl, rfl, fun other hother => ?_⟩
    rw [child?_atName, child?_atName, h other hother]

/-- A path of names can be laid over every tree. -/
theorem Tree.exists_set_names (names : List String) (origin : Option String) (v : Toml.Value)
    (t : Tree) : ∃ t', t.set origin v (names.map .name) = some t' := by
  cases h : t.set origin v (names.map .name) with
  | some t' => exact ⟨t', rfl⟩
  | none =>
    have hfar := any_isTooFar_of_set h
    rw [List.any_map, List.any_eq_true] at hfar
    obtain ⟨name, -, hname⟩ := hfar
    cases hname

/-- A tame entry that gives settings something is a path of names, under a name of settings. -/
theorem Tame.exists_names {v : Toml.Value} (h : Tame (key, v)) (hkey : isFurther key = false) :
    ∃ top, ∃ names : List String,
      KeyPath.ofKey key = .name top :: names.map .name ∧ top ∈ topNames := by
  cases h with
  | further hfurther => cases hfurther.symm.trans hkey
  | sides hboundary => exact ⟨"boundary", [], hboundary, by decide⟩
  | setting s hplace =>
    rw [hplace]
    cases s with
    | side d => exact ⟨"boundary", [d.key], rfl, by decide⟩
    | cells | messageWords | iterations | linkCapacity => exact ⟨_, [], rfl, by decide⟩

/-- An entry that gives settings something can be laid, and changes nothing elsewhere. -/
theorem Tree.AgreeElsewhere.set_left (h : t.AgreeElsewhere u) {v : Toml.Value}
    (htame : Tame (key, v)) (hkey : isFurther key = false) (origin : Option String) :
    ∃ t', t.set origin v (KeyPath.ofKey key) = some t' ∧ t'.AgreeElsewhere u := by
  obtain ⟨top, names, hplace, htop⟩ := htame.exists_names hkey
  rw [hplace]
  obtain ⟨t', hset⟩ := exists_set_names (top :: names) origin v t
  obtain ⟨inner, -, hchild⟩ := child?_set hset
  refine ⟨t', hset, fun name hname => ?_⟩
  rw [hchild, if_neg, h name hname]
  rintro rfl
  exact hname htop

/-- **Whether a source can be laid is up to the keys that lead elsewhere.** -/
theorem Alike.laidOver (h : t.AgreeElsewhere u) (htame : ∀ e ∈ layer.entries, Tame e) :
    Alike (layer.laidOver t) (layer.further.laidOver u) := by
  obtain ⟨origin, entries⟩ := layer
  induction entries generalizing t u with
  | nil => exact .ok h
  | cons entry rest ih =>
    obtain ⟨key, v⟩ := entry
    obtain ⟨hfirst, hrest⟩ := List.forall_mem_cons.1 htame
    cases hkey : isFurther key with
    | false =>
      have hskip : Layer.further ⟨origin, (key, v) :: rest⟩ = Layer.further ⟨origin, rest⟩ := by
        rw [Layer.further, List.filter_cons_of_neg (by simp [hkey])]
        rfl
      obtain ⟨t', hset, hagree⟩ := h.set_left hfirst hkey origin
      rw [hskip, Layer.laidOver_cons, hset]
      exact ih hagree hrest
    | true =>
      have hkeep : Layer.further ⟨origin, (key, v) :: rest⟩ =
          ⟨origin, (key, v) :: (Layer.further ⟨origin, rest⟩).entries⟩ := by
        rw [Layer.further, List.filter_cons_of_pos (by simp [hkey])]
        rfl
      rw [hkeep, Layer.laidOver_cons, Layer.laidOver_cons]
      rcases h.set hkey origin v with ⟨ht, hu⟩ | ⟨t', u', ht, hu, hagree⟩
      · rw [ht, hu]
        exact .error _
      · rw [ht, hu]
        exact ih hagree hrest

/-! ### All sources -/

/-- The number that the last of some sources gives a setting. -/
def lastGiven (given : List (Setting → Option Int)) (s : Setting) : Option Int :=
  lastTold (· s) given

/-- **The last number that a source gives a setting stands**, for each setting on its own, and what
else the sources hold decides alone whether they can be laid. -/
theorem Tree.Settled.foldlM {layers : List Layer} {given : List (Setting → Option Int)}
    (hsets : List.Forall₂ Layer.Sets layers given) (h : t.Settled values)
    (hagree : t.AgreeElsewhere u) :
    (∃ fault, layers.foldlM (fun t l => l.laidOver t) t = .error fault ∧
        (layers.map Layer.further).foldlM (fun t l => l.laidOver t) u = .error fault) ∨
      ∃ t' u', layers.foldlM (fun t l => l.laidOver t) t = .ok t' ∧
        (layers.map Layer.further).foldlM (fun t l => l.laidOver t) u = .ok u' ∧
        t'.Settled fun s => (lastGiven given s).or (values s) := by
  induction hsets generalizing t u values with
  | nil => exact .inr ⟨t, u, rfl, rfl, h⟩
  | @cons layer first layers given hfirst _ ih =>
    have halike := Alike.laidOver hagree hfirst.tame
    rw [List.map_cons, List.foldlM_cons, List.foldlM_cons]
    generalize layer.further.laidOver u = outcome at halike ⊢
    cases hlaid : layer.laidOver t with
    | error fault =>
      rw [hlaid] at halike
      cases halike with
      | error => exact .inl ⟨fault, rfl, rfl⟩
    | ok next =>
      rw [hlaid] at halike
      cases halike with
      | ok hagree =>
        rcases ih (h.laidOver hfirst hlaid) hagree with hfault | ⟨t', u', ht, hu, hsettled⟩
        · exact .inl hfault
        · refine .inr ⟨t', u', ht, hu, ?_⟩
          simpa only [lastGiven, lastTold_cons, Option.or_assoc] using hsettled

/-- A tree without settings. -/
theorem Tree.settled_empty : (Tree.table [] none).Settled fun _ => none := by
  refine ⟨nofun, fun s => ?_⟩
  obtain ⟨name, rest, hpath, -⟩ := s.exists_path
  rw [hpath]
  exact .none

/-- Sources that cannot be laid have a key that leads elsewhere and asks too far. -/
theorem exists_asksTooFar {layers : List Layer}
    (h : ofLayers (layers.map Layer.further) = .error fault) :
    ∃ layer ∈ layers, ∃ e ∈ layer.entries, isFurther e.1 = true ∧ fault = .outOfReach e.1 ∧
      asksTooFar e.1 = true := by
  rw [ofLayers] at h
  generalize Tree.table [] none = t at h
  induction layers generalizing t with
  | nil => cases h
  | cons layer layers ih =>
    rw [List.map_cons, List.foldlM_cons] at h
    cases hlaid : layer.further.laidOver t with
    | error cause =>
      rw [hlaid] at h
      cases h
      obtain ⟨e, he, hfault⟩ := Layer.asksTooFar_of_laidOver hlaid
      obtain ⟨hmem, hkey⟩ := List.mem_filter.1 he
      exact ⟨layer, List.mem_cons_self, e, hmem, hkey, hfault⟩
    | ok next =>
      rw [hlaid] at h
      obtain ⟨layer', hmem, hrest⟩ := ih next h
      exact ⟨layer', List.mem_cons_of_mem _ hmem, hrest⟩

/-- **Each setting is the number of the last source that gives it one**, or its default, if the keys
that lead elsewhere can be laid in their order. Otherwise loading fails as these keys do. -/
theorem load_layered {order : LayingOrder} {layers : List Layer}
    {given : List (Setting → Option Int)}
    (h : List.Forall₂ Layer.Sets (order.arranged layers) given) :
    (∃ fault, load order layers = .error fault ∧
        ofLayers ((order.arranged layers).map Layer.further) = .error fault) ∨
      ∃ c t, load order layers = .ok c ∧
        ofLayers ((order.arranged layers).map Layer.further) = .ok t ∧
        ∀ s : Setting, s.of c = (lastGiven given s).getD (s.of {}) := by
  have hlaid := Tree.Settled.foldlM h Tree.settled_empty (u := .table [] none) fun _ _ => rfl
  rcases hlaid with ⟨fault, hall, hfurther⟩ | ⟨t, u, hall, hfurther, hsettled⟩
  · refine .inl ⟨fault, ?_, hfurther⟩
    rw [load, ofLayers, hall]
    rfl
  · obtain ⟨c, hc, hvalues⟩ := hsettled.configOf
    refine .inr ⟨c, u, ?_, hfurther, fun s => ?_⟩
    · rw [load, ofLayers, hall]
      change (configOf t).mapError LoadFault.wrongKind = _
      rw [hc]
      rfl
    · rw [hvalues, Option.or_none]

end Settings
end DiffusionMesh
