/-
# Which settings are accepted

`validate` computes with words of 32 and 64 bits. What it accepts is said here over the natural
numbers, as demands in the order in which they are looked at:

| demand | otherwise |
| --- | --- |
| the number of cells is a power of four | the number is named |
| a message has two words at least | the length is named |
| `√cells · (words - 1) ≤ 4096` | the side is named, or the side of a tile if it exceeds 64 bits |
| a link holds one frame at least | |
| north, south, east and west lie within -32768 … 32767 | the side and its degrees are named |

The first demand that is not met decides (`judged_validate`). The side of the whole grid is never a
wrapped product: one beyond 64 bits is refused before it is compared.

Main statement: `validate_exact`.
-/

import DiffusionMesh.Proofs.Grid.Lattice
import DiffusionMesh.Settings.Config
import Mathlib.Data.Nat.Sqrt

namespace DiffusionMesh

/-! ### Demands in order -/

/-- A condition, and the failure that tells that it is not met. -/
structure Demand where
  met : Prop
  failure : Failure

/-- What comes of demands that are looked at one after the other: the first one that is not met
decides. -/
inductive Judged : List Demand → Except Failure Unit → Prop
  | passed : Judged [] (.ok ())
  | met {d : Demand} {rest : List Demand} {outcome : Except Failure Unit} (hd : d.met)
      (h : Judged rest outcome) : Judged (d :: rest) outcome
  | breached {d : Demand} {rest : List Demand} (hd : ¬ d.met) :
      Judged (d :: rest) (.error d.failure)

namespace Judged

variable {demands rest : List Demand} {d : Demand} {outcome : Except Failure Unit} {cause : Failure}

theorem ok_iff (h : Judged demands outcome) : outcome = .ok () ↔ ∀ d ∈ demands, d.met := by
  induction h with
  | passed => simp
  | met hd _ ih => simp [ih, hd]
  | breached hd => simp [hd]

theorem error_iff (h : Judged demands outcome) : outcome = .error cause ↔
    ∃ before d after, demands = before ++ d :: after ∧ (∀ e ∈ before, e.met) ∧ ¬ d.met ∧
      d.failure = cause := by
  induction h with
  | passed => simp
  | met hd _ ih =>
    rw [ih]
    constructor
    · rintro ⟨before, e, after, rfl, hbefore, he, hcause⟩
      exact ⟨_ :: before, e, after, rfl, List.forall_mem_cons.2 ⟨hd, hbefore⟩, he, hcause⟩
    · rintro ⟨_ | ⟨e, before⟩, f, after, heq, hbefore, hf, hcause⟩
      · obtain ⟨rfl, -⟩ := List.cons.inj heq
        exact absurd hd hf
      · obtain ⟨-, rfl⟩ := List.cons.inj heq
        exact ⟨before, f, after, rfl, (List.forall_mem_cons.1 hbefore).2, hf, hcause⟩
  | breached hd =>
    constructor
    · intro hcause
      exact ⟨[], _, _, rfl, List.forall_mem_nil _, hd, Except.error.inj hcause⟩
    · rintro ⟨_ | ⟨e, before⟩, f, after, heq, hbefore, hf, hcause⟩
      · obtain ⟨rfl, -⟩ := List.cons.inj heq
        rw [hcause]
      · obtain ⟨rfl, -⟩ := List.cons.inj heq
        exact absurd (List.forall_mem_cons.1 hbefore).1 hd

theorem of_ite {p : Prop} [Decidable p] (hp : p ↔ ¬ d.met) (h : d.met → Judged rest outcome) :
    Judged (d :: rest) (if p then .error d.failure else outcome) := by
  split
  · next hd => exact .breached (hp.1 hd)
  · next hd =>
    have hmet : d.met := not_not.1 (mt hp.2 hd)
    exact .met hmet (h hmet)

/-- A search for the first breach judges the demands that it searches. -/
theorem of_find? {α : Type} {demand : α → Demand} {bad : α → Bool}
    (hbad : ∀ a, bad a = true ↔ ¬ (demand a).met) (as : List α) :
    Judged (as.map demand) (match as.find? bad with
      | some a => .error (demand a).failure
      | none => .ok ()) := by
  induction as with
  | nil => exact .passed
  | cons a as ih =>
    rw [List.find?_cons]
    cases ha : bad a with
    | true => exact .breached ((hbad a).1 ha)
    | false => exact .met (not_not.1 fun h => by simp [(hbad a).2 h] at ha) ih

end Judged

namespace Config

variable {c : Config} {g : Geometry} {cause : Failure}

/-! ### The demands on settings -/

/-- The side of the whole grid as a natural number. -/
def fullSide (c : Config) : Nat := Nat.sqrt c.cells.toNat * (c.messageWords.toNat - 1)

/-- A side of the boundary has to fit a temperature. -/
def boundaryDemand (c : Config) (d : Direction) : Demand :=
  ⟨-32768 ≤ (c.boundary.get d).toInt ∧ (c.boundary.get d).toInt ≤ 32767,
    .invalidSetting (.boundaryTooWide d (c.boundary.get d))⟩

/-- What settings have to meet, in the order in which it is looked at. -/
def demands (c : Config) : List Demand :=
  [⟨∃ k : Nat, c.cells.toNat = 4 ^ k, .invalidCellCount c.cells⟩,
    ⟨2 ≤ c.messageWords.toNat, .invalidMessageLength c.messageWords⟩,
    ⟨c.fullSide ≤ 4096, .coordinateOverflow
      (if c.fullSide < UInt64.size then c.fullSide else c.messageWords.toNat - 1)⟩,
    ⟨1 ≤ c.linkCapacity.toNat, .invalidSetting .noCapacity⟩] ++
  Direction.all.map c.boundaryDemand

theorem toNat_edgeLength (c : Config) : c.edgeLength.toNat = c.messageWords.toNat - 1 := by
  unfold edgeLength
  split
  · next h => rw [h]; rfl
  · next h =>
    have hpos : c.messageWords.toNat ≠ 0 := fun hzero => h (UInt64.toNat_inj.1 hzero)
    refine UInt64.toNat_sub_of_le _ _ (UInt64.le_iff_toNat_le.2 ?_)
    rw [UInt64.toNat_one]
    omega

/-- The product of the side of the mesh and that of a tile, over the natural numbers. -/
theorem globalSide_eq_fullSide (hg : c.geometry = .ok g) : c.globalSide g = c.fullSide := by
  rw [globalSide, fullSide, g.side_toNat, c.toNat_edgeLength, ← Geometry.ofCells_eq_ok hg,
    g.cells_toNat, Nat.sqrt_eq]

theorem fits_iff {degrees : Int32} :
    fits degrees = true ↔ -32768 ≤ degrees.toInt ∧ degrees.toInt ≤ 32767 := by
  rw [fits, Bool.and_eq_true, decide_eq_true_eq, decide_eq_true_eq, Int32.le_iff_toInt_le,
    Int32.le_iff_toInt_le]
  rfl

/-- The conditions on settings with a geometry, in the order in which they are checked. -/
theorem validate_eq (hg : c.geometry = .ok g) : c.validate =
    if c.messageWords < 2 then .error (.invalidMessageLength c.messageWords)
    else if UInt64.size ≤ c.globalSide g then .error (.coordinateOverflow c.edgeLength.toNat)
    else if greatestSide < c.globalSide g then .error (.coordinateOverflow (c.globalSide g))
    else if c.linkCapacity = 0 then .error (.invalidSetting .noCapacity)
    else match Direction.all.find? fun d => !fits (c.boundary.get d) with
      | some d => .error (.invalidSetting (.boundaryTooWide d (c.boundary.get d)))
      | none => .ok () := by
  rw [validate, hg]
  rfl

/-- The two conditions on the side are one. -/
theorem side_conditions {S e : Nat} {outcome : Except Failure Unit} :
    (if UInt64.size ≤ S then .error (.coordinateOverflow e)
      else if greatestSide < S then .error (.coordinateOverflow S) else outcome) =
    if 4096 < S then .error (.coordinateOverflow (if S < UInt64.size then S else e))
      else outcome := by
  have hsize : UInt64.size = 18446744073709551616 := rfl
  have hgreatest : greatestSide = 4096 := rfl
  rw [hgreatest]
  by_cases hwide : UInt64.size ≤ S
  · rw [if_pos hwide, if_pos (by omega), if_neg (Nat.not_lt.2 hwide)]
  · rw [if_neg hwide, if_pos (c := S < UInt64.size) (Nat.not_le.1 hwide)]

/-- **Settings are judged by the demands in their order.** -/
theorem judged_validate (c : Config) : Judged c.demands c.validate := by
  cases hg : c.geometry with
  | error cause =>
    have hcells : ¬ ∃ k : Nat, c.cells.toNat = 4 ^ k := by
      intro h
      obtain ⟨g, hfound⟩ := Geometry.exists_ofCells_iff.2 h
      rw [geometry, hfound] at hg
      cases hg
    have hvalidate : c.validate = .error (.invalidCellCount c.cells) := by
      rw [validate, geometry, Geometry.ofCells_eq_error hcells]
      rfl
    rw [hvalidate]
    exact .breached hcells
  | ok g =>
    have hbad : ∀ d, (!fits (c.boundary.get d)) = true ↔ ¬ (c.boundaryDemand d).met := by
      intro d
      rw [Bool.not_eq_true', ← Bool.not_eq_true, fits_iff]
      rfl
    rw [validate_eq hg, side_conditions, globalSide_eq_fullSide hg, c.toNat_edgeLength]
    refine .met (Geometry.exists_ofCells_iff.1 ⟨g, hg⟩) ?_
    refine .of_ite ?_ fun _ => .of_ite Nat.not_le.symm fun _ => .of_ite ?_ fun _ => ?_
    · rw [UInt64.lt_iff_toNat_lt]
      exact Nat.not_le.symm
    · rw [← UInt64.toNat_inj, UInt64.toNat_zero]
      omega
    · have hsides := Judged.of_find? hbad Direction.all
      cases hfind : Direction.all.find? fun d => !fits (c.boundary.get d) with
      | none => rwa [hfind] at hsides
      | some d => rwa [hfind] at hsides

theorem validate_eq_ok_iff : c.validate = .ok () ↔ (∃ k : Nat, c.cells.toNat = 4 ^ k) ∧
    2 ≤ c.messageWords.toNat ∧ c.fullSide ≤ 4096 ∧ 1 ≤ c.linkCapacity.toNat ∧
    ∀ d, -32768 ≤ (c.boundary.get d).toInt ∧ (c.boundary.get d).toInt ≤ 32767 := by
  rw [c.judged_validate.ok_iff, demands, List.forall_mem_append, List.forall_mem_map]
  simp only [List.forall_mem_cons, List.not_mem_nil, false_imp_iff, implies_true, and_true, and_assoc]
  simp only [Direction.mem_all, true_imp_iff]
  rfl

/-- The product of accepted settings does not wrap in 64 bits. -/
theorem toNat_product (h : c.validate = .ok ()) (hg : c.geometry = .ok g) :
    (g.side.toUInt64 * c.edgeLength).toNat = c.fullSide := by
  have hfits : c.fullSide < 2 ^ 64 :=
    Nat.lt_of_le_of_lt (validate_eq_ok_iff.1 h).2.2.1 (by decide)
  rw [← globalSide_eq_fullSide hg, globalSide] at hfits ⊢
  rw [UInt64.toNat_mul, UInt32.toNat_toUInt64, Nat.mod_eq_of_lt hfits]

/-- **Validation is exact.** Settings are accepted exactly when they meet the demands, said over the
natural numbers; otherwise the first demand in the order that is not met gives the failure. A product
that wraps is never accepted. -/
theorem validate_exact (c : Config) :
    (c.validate = .ok () ↔ (∃ k : Nat, c.cells.toNat = 4 ^ k) ∧ 2 ≤ c.messageWords.toNat ∧
      Nat.sqrt c.cells.toNat * (c.messageWords.toNat - 1) ≤ 4096 ∧ 1 ≤ c.linkCapacity.toNat ∧
      ∀ d, -32768 ≤ (c.boundary.get d).toInt ∧ (c.boundary.get d).toInt ≤ 32767) ∧
    (∀ cause, c.validate = .error cause ↔ ∃ before d after, c.demands = before ++ d :: after ∧
      (∀ e ∈ before, e.met) ∧ ¬ d.met ∧ d.failure = cause) ∧
    ∀ g, c.geometry = .ok g → c.validate = .ok () → (g.side.toUInt64 * c.edgeLength).toNat =
      Nat.sqrt c.cells.toNat * (c.messageWords.toNat - 1) :=
  ⟨validate_eq_ok_iff, fun _ => c.judged_validate.error_iff, fun _ hg h => toNat_product h hg⟩

/-- The widest grid is accepted, with an exact product. A grid whose product wraps to zero is refused,
with the side of a tile in place of its own. -/
theorem validate_exact_widest :
    let c : Config := { cells := 4096, messageWords := 65 }
    let wrapping : Config := { cells := 1073741824, messageWords := 562949953421313 }
    c.validate = .ok () ∧
    (∃ g, c.geometry = .ok g ∧ (g.side.toUInt64 * c.edgeLength).toNat = 4096) ∧
    wrapping.validate = .error (.coordinateOverflow 562949953421312) ∧
    ∃ g, wrapping.geometry = .ok g ∧ (g.side.toUInt64 * wrapping.edgeLength).toNat = 0 := by
  intro c wrapping
  have hg : c.geometry = .ok ⟨4096, 6, rfl⟩ := by decide
  have hroot : Nat.sqrt c.cells.toNat = 64 := Nat.sqrt_eq 64
  obtain ⟨haccepted, -, hproduct⟩ := validate_exact c
  have hvalid := haccepted.2 ⟨⟨6, rfl⟩, by decide, by rw [hroot]; decide, by decide,
    fun d => by cases d <;> decide⟩
  have hexact := hproduct _ hg hvalid
  rw [hroot] at hexact
  have hroot' : Nat.sqrt wrapping.cells.toNat = 32768 := Nat.sqrt_eq 32768
  have hwords : wrapping.messageWords.toNat = 562949953421313 := rfl
  have hside : wrapping.fullSide = 18446744073709551616 := by rw [fullSide, hroot', hwords]
  have hrefused := (validate_exact wrapping).2.1 (.coordinateOverflow 562949953421312)
  refine ⟨hvalid, ⟨_, hg, hexact⟩, hrefused.2 ⟨wrapping.demands.take 2, _, wrapping.demands.drop 3, rfl,
    List.forall_mem_cons.2 ⟨⟨15, rfl⟩, List.forall_mem_singleton.2 (by decide)⟩, ?_, ?_⟩,
    ⟨1073741824, 15, rfl⟩, by decide, by decide⟩
  · rw [hside]
    decide
  · rw [hside]
    rfl

end Config
end DiffusionMesh
