/-
# A heat map from result words in any order

A result word gives back the row, the column and the temperature it was packed from, as long as the
coordinates fit in twelve bits. Words that name every position of a square exactly once make up its
heat map, in whatever order they come: each one finds its slot empty, and no slot is left empty.

Words are taken in one by one, and each is judged by those before it:

| word | |
| --- | --- |
| names no position of the square | refused |
| names a position that an earlier word names | refused |
| any other | accepted |

Whatever takes words in by this rule accepts a whole list or stops at its first refused word
(`Takes.accepted`, `Takes.refused`). Main statements: `ResultWord.spot_pack` and `HeatMap.ofWords_eq`.
-/

import DiffusionMesh.Image.HeatMap
import Mathlib.Algebra.Ring.Nat
import Mathlib.Data.List.Induction
import Mathlib.Data.List.Nodup

namespace DiffusionMesh

/-- The positions of a square, row by row. -/
def squares (side : Nat) : List (Nat × Nat) :=
  (List.range (side * side)).map fun k => (k / side, k % side)

theorem mem_squares {side r c : Nat} : (r, c) ∈ squares side ↔ r < side ∧ c < side := by
  simp only [squares, List.mem_map, List.mem_range, Prod.mk.injEq]
  constructor
  · rintro ⟨k, hk, rfl, rfl⟩
    have hpos : 0 < side := Nat.pos_of_mul_pos_left (Nat.zero_lt_of_lt hk)
    exact ⟨Nat.div_lt_of_lt_mul hk, Nat.mod_lt _ hpos⟩
  · rintro ⟨hr, hc⟩
    have hk : c + side * r < side * side := by
      have hle : side * (r + 1) ≤ side * side := Nat.mul_le_mul_left side hr
      rw [Nat.mul_succ] at hle
      omega
    exact ⟨c + side * r, hk, (Nat.div_mod_unique (Nat.zero_lt_of_lt hc)).2 ⟨rfl, hc⟩⟩

theorem nodup_squares (side : Nat) : (squares side).Nodup := by
  refine List.Nodup.map (fun a b hab => ?_) List.nodup_range
  obtain ⟨hdiv, hmod⟩ := Prod.mk.inj hab
  rw [← Nat.div_add_mod a side, hdiv, hmod, Nat.div_add_mod]

/-- Quotient and remainder are determined by the number they make up. -/
theorem eq_of_mul_add_eq {S a b i j : Nat} (hi : i < S) (hj : j < S)
    (h : a * S + i = b * S + j) : a = b ∧ i = j := by
  have hpos : 0 < S := Nat.zero_lt_of_lt hi
  have hdiv := (Nat.div_mod_unique hpos).2 ⟨Nat.add_comm i (S * a), hi⟩
  have hdiv' := (Nat.div_mod_unique hpos).2 ⟨Nat.add_comm j (S * b), hj⟩
  rw [Nat.mul_comm a, Nat.mul_comm b] at h
  rw [h] at hdiv
  exact ⟨hdiv.1.symm.trans hdiv'.1, hdiv.2.symm.trans hdiv'.2⟩

namespace ResultWord

/-- The row and the column that a word names. -/
def spot (w : ResultWord) : Nat × Nat := (w.row.toNat, w.column.toNat)

/-- The three fields of a word side by side. -/
theorem word_pack {row column : UInt32} (hrow : row.toNat < 4096) (hcolumn : column.toNat < 4096)
    (t : UInt8) : (pack row column t).word.toNat =
      row.toNat * 2 ^ 20 + column.toNat * 2 ^ 8 + t.toNat := by
  have hmask : ∀ n : UInt32, n.toNat < 4096 → (n &&& maxCoordinate).toNat = n.toNat := by
    intro n hn
    rw [UInt32.toNat_and, show maxCoordinate.toNat = 2 ^ 12 - 1 from rfl,
      Nat.and_two_pow_sub_one_eq_mod, Nat.mod_eq_of_lt hn]
  have ht := t.toNat_lt
  have hlow : (column.toNat <<< 8) < 2 ^ 20 := by
    rw [Nat.shiftLeft_eq]
    omega
  simp only [pack, UInt32.toNat_or, UInt32.toNat_shiftLeft, hmask row hrow, hmask column hcolumn,
    UInt8.toNat_toUInt32]
  rw [show (20 : UInt32).toNat % 32 = 20 from rfl, show (8 : UInt32).toNat % 32 = 8 from rfl,
    Nat.mod_eq_of_lt (a := column.toNat <<< 8) (by omega),
    Nat.mod_eq_of_lt (a := row.toNat <<< 20) (by rw [Nat.shiftLeft_eq]; omega),
    ← Nat.shiftLeft_add_eq_or_of_lt hlow]
  have hhigh : row.toNat <<< 20 + column.toNat <<< 8 =
      (row.toNat * 2 ^ 12 + column.toNat) <<< 8 := by
    simp only [Nat.shiftLeft_eq]
    omega
  rw [hhigh, ← Nat.shiftLeft_add_eq_or_of_lt ht, Nat.shiftLeft_eq]
  omega

/-- **A word names the position it was packed for.** -/
theorem spot_pack {row column : UInt32} (hrow : row.toNat < 4096) (hcolumn : column.toNat < 4096)
    (t : UInt8) : (pack row column t).spot = (row.toNat, column.toNat) := by
  have hword := word_pack hrow hcolumn t
  have ht := t.toNat_lt
  simp only [spot, ResultWord.row, ResultWord.column, UInt32.toNat_and, UInt32.toNat_shiftRight,
    hword, Prod.mk.injEq]
  rw [show (20 : UInt32).toNat % 32 = 20 from rfl, show (8 : UInt32).toNat % 32 = 8 from rfl,
    show maxCoordinate.toNat = 2 ^ 12 - 1 from rfl, Nat.and_two_pow_sub_one_eq_mod,
    Nat.shiftRight_eq_div_pow, Nat.shiftRight_eq_div_pow]
  omega

theorem temperature_pack {row column : UInt32} (hrow : row.toNat < 4096)
    (hcolumn : column.toNat < 4096) (t : UInt8) : (pack row column t).temperature = t := by
  have hword := word_pack hrow hcolumn t
  have ht := t.toNat_lt
  rw [← UInt8.toNat_inj, temperature, UInt32.toNat_toUInt8, hword]
  omega

theorem row_lt (w : ResultWord) : w.row.toNat < 4096 := by
  have hword := w.word.toNat_lt
  rw [row, UInt32.toNat_shiftRight, show (20 : UInt32).toNat % 32 = 20 from rfl,
    Nat.shiftRight_eq_div_pow]
  omega

theorem column_lt (w : ResultWord) : w.column.toNat < 4096 := by
  rw [column, UInt32.toNat_and, show maxCoordinate.toNat = 2 ^ 12 - 1 from rfl,
    Nat.and_two_pow_sub_one_eq_mod]
  exact Nat.mod_lt _ (by decide)

end ResultWord

namespace HeatMap

variable {side : Nat} {words before after : List ResultWord} {w : ResultWord} {cause : ResultFault}

/-! ### Which words are accepted -/

/-- Words that are accepted one after the other: each names a position of the square, and no two
the same. -/
structure Accepted (side : Nat) (words : List ResultWord) : Prop where
  inside : ∀ w ∈ words, w.row.toNat < side ∧ w.column.toNat < side
  nodup : (words.map ResultWord.spot).Nodup

/-- Why a word is refused behind others. -/
inductive Refused (side : Nat) (before : List ResultWord) (w : ResultWord) : ResultFault → Prop
  | outside (h : ¬ (w.row.toNat < side ∧ w.column.toNat < side)) :
    Refused side before w (.outside w side)
  | duplicate (h : w.row.toNat < side ∧ w.column.toNat < side)
      (hmem : w.spot ∈ before.map ResultWord.spot) :
    Refused side before w (.duplicate w.row.toNat w.column.toNat)

theorem accepted_nil : Accepted side [] := ⟨nofun, List.nodup_nil⟩

theorem accepted_concat : Accepted side (before ++ [w]) ↔ Accepted side before ∧
    (w.row.toNat < side ∧ w.column.toNat < side) ∧ w.spot ∉ before.map ResultWord.spot := by
  constructor
  · rintro ⟨hinside, hnodup⟩
    obtain ⟨hbefore, hw⟩ := List.forall_mem_append.1 hinside
    rw [List.map_append, List.map_singleton, List.nodup_append'] at hnodup
    exact ⟨⟨hbefore, hnodup.1⟩, hw w (List.mem_singleton_self w),
      fun hmem => hnodup.2.2 hmem (List.mem_singleton_self _)⟩
  · rintro ⟨⟨hinside, hnodup⟩, hw, hnew⟩
    refine ⟨List.forall_mem_append.2 ⟨hinside, fun v hv => ?_⟩, ?_⟩
    · rw [List.eq_of_mem_singleton hv]
      exact hw
    · rw [List.map_append, List.map_singleton, List.nodup_append']
      refine ⟨hnodup, List.nodup_singleton _, fun spot hmem hspot => ?_⟩
      rw [List.eq_of_mem_singleton hspot] at hmem
      exact hnew hmem

theorem Accepted.of_append (h : Accepted side (before ++ after)) : Accepted side before := by
  refine ⟨(List.forall_mem_append.1 h.inside).1, ?_⟩
  have hnodup := h.nodup
  rw [List.map_append] at hnodup
  exact hnodup.of_append_left

/-- Either all words are accepted, or there is a first one that is refused. -/
theorem accepted_or_refused (side : Nat) (words : List ResultWord) : Accepted side words ∨
    ∃ before w after cause, words = before ++ w :: after ∧ Accepted side before ∧
      Refused side before w cause := by
  induction words using List.reverseRecOn with
  | nil => exact .inl accepted_nil
  | append_singleton words w ih =>
    rcases ih with haccepted | ⟨before, v, after, cause, rfl, hbefore, hrefused⟩
    · by_cases hw : w.row.toNat < side ∧ w.column.toNat < side
      · by_cases hmem : w.spot ∈ words.map ResultWord.spot
        · exact .inr ⟨words, w, [], _, rfl, haccepted, .duplicate hw hmem⟩
        · exact .inl (accepted_concat.2 ⟨haccepted, hw, hmem⟩)
      · exact .inr ⟨words, w, [], _, rfl, haccepted, .outside hw⟩
    · exact .inr ⟨before, v, after ++ [w], cause, by simp, hbefore, hrefused⟩

/-- A way to take in words one by one: `holds` says what is held after some words, and `fault` how
a refusal is told. -/
structure Takes {σ ε : Type} (side : Nat) (holds : List ResultWord → σ → Prop)
    (fault : ResultFault → ε) (take : σ → ResultWord → Except ε σ) : Prop where
  accept : ∀ {before s w}, holds before s → Accepted side (before ++ [w]) →
    ∃ s', take s w = .ok s' ∧ holds (before ++ [w]) s'
  refuse : ∀ {before s w cause}, holds before s → Refused side before w cause →
    take s w = .error (fault cause)

section

variable {σ ε : Type} {holds : List ResultWord → σ → Prop} {fault : ResultFault → ε}
  {take : σ → ResultWord → Except ε σ} {s : σ}

/-- Accepted words are all taken in. -/
theorem Takes.accepted (h : Takes side holds fault take) (hs : holds before s)
    (haccepted : Accepted side (before ++ words)) :
    ∃ s', words.foldlM take s = .ok s' ∧ holds (before ++ words) s' := by
  induction words generalizing before s with
  | nil => exact ⟨s, rfl, by rwa [List.append_nil]⟩
  | cons w rest ih =>
    rw [List.append_cons] at haccepted ⊢
    obtain ⟨s₁, htake, hs₁⟩ := h.accept hs haccepted.of_append
    obtain ⟨s₂, hfold, hs₂⟩ := ih hs₁ haccepted
    refine ⟨s₂, ?_, hs₂⟩
    rw [List.foldlM_cons, htake]
    exact hfold

/-- The first refused word ends the taking in. -/
theorem Takes.refused (h : Takes side holds fault take) (hs : holds [] s)
    (haccepted : Accepted side before) (hrefused : Refused side before w cause) :
    (before ++ w :: after).foldlM take s = .error (fault cause) := by
  obtain ⟨s', hfold, hs'⟩ := h.accepted hs haccepted
  rw [List.foldlM_append, hfold]
  change List.foldlM take s' (w :: after) = _
  rw [List.foldlM_cons, h.refuse hs' hrefused]
  rfl

end

/-! ### Slots -/

/-- Positions of a square have slots of their own, as long as they are those of words. -/
theorem slot_inj {r c r' c' : Nat} (hc : c < min side 4096) (hc' : c' < min side 4096)
    (h : slot side r c = slot side r' c') : r = r' ∧ c = c' :=
  eq_of_mul_add_eq hc hc' h

/-- The slot of the position that a word names. -/
def slotOf (side : Nat) (w : ResultWord) : Nat := slot side w.row.toNat w.column.toNat

theorem slotOf_eq_iff {v : ResultWord} (hv : v.column.toNat < side) (hw : w.column.toNat < side) :
    slotOf side v = slotOf side w ↔ v.spot = w.spot := by
  constructor
  · intro h
    obtain ⟨hrow, hcolumn⟩ :=
      slot_inj (Nat.lt_min.2 ⟨hv, v.column_lt⟩) (Nat.lt_min.2 ⟨hw, w.column_lt⟩) h
    exact Prod.ext hrow hcolumn
  · intro h
    obtain ⟨hrow, hcolumn⟩ := Prod.mk.inj h
    rw [slotOf, hrow, hcolumn, slotOf]

/-- What the slots hold after some words. -/
structure Placed (side : Nat) (words : List ResultWord) (slots : Array (Option UInt8)) : Prop where
  filled : ∀ w ∈ words, slots.getD (slotOf side w) none = some w.temperature
  free : ∀ k, (∀ w ∈ words, slotOf side w ≠ k) → slots.getD k none = none

theorem placed_nil : Placed side [] #[] := ⟨nofun, fun _ _ => rfl⟩

/-- **Words are placed by the rule.** An accepted word finds its slot empty, and one that is refused
as a duplicate finds it filled. -/
theorem takes_place (side : Nat) : Takes side (Placed side) id (place side) := by
  constructor
  · intro before slots w hslots haccepted
    obtain ⟨hbefore, hw, hnew⟩ := accepted_concat.1 haccepted
    have hother : ∀ v ∈ before, slotOf side v ≠ slotOf side w := by
      intro v hv hslot
      rw [slotOf_eq_iff (hbefore.inside v hv).2 hw.2] at hslot
      exact hnew (hslot ▸ List.mem_map_of_mem hv)
    have hempty := hslots.free _ hother
    refine ⟨fill slots (slotOf side w) w.temperature, ?_, ?_, ?_⟩
    · rw [slotOf] at hempty
      simp only [place, hw, and_self, if_true, hempty]
      rfl
    · refine List.forall_mem_append.2 ⟨fun v hv => ?_, fun v hv => ?_⟩
      · rw [getD_fill, if_neg (hother v hv), hslots.filled v hv]
      · rw [List.eq_of_mem_singleton hv, getD_fill, if_pos rfl]
    · intro k hk
      obtain ⟨hk, hwk⟩ := List.forall_mem_append.1 hk
      rw [getD_fill, if_neg (hwk w (List.mem_singleton_self w)).symm, hslots.free k hk]
  · rintro before slots w cause hslots (hout | ⟨hw, hmem⟩)
    · exact if_neg hout
    · obtain ⟨v, hv, hspot⟩ := List.mem_map.1 hmem
      obtain ⟨hrow, hcolumn⟩ := Prod.mk.inj hspot
      have hfilled := hslots.filled v hv
      rw [slotOf, hrow, hcolumn] at hfilled
      simp only [place, hw, and_self, if_true, hfilled]
      rfl

/-! ### Words that cover a square -/

/-- Words that name every position of a square once are accepted. -/
theorem accepted_of_perm (h : (words.map ResultWord.spot).Perm (squares side)) :
    Accepted side words :=
  ⟨fun _ hw => mem_squares.1 (h.mem_iff.1 (List.mem_map_of_mem hw)),
    h.nodup_iff.2 (nodup_squares side)⟩

theorem length_of_perm (h : (words.map ResultWord.spot).Perm (squares side)) :
    words.length = side * side := by
  have hlength := h.length_eq
  rwa [List.length_map, squares, List.length_map, List.length_range] at hlength

/-- **Words that name every position once make up a heat map**, in whatever order. -/
theorem ofWords_eq (hside : side ≤ 4096) {f : Nat → Nat → UInt8}
    (hspots : (words.map ResultWord.spot).Perm (squares side))
    (hbyte : ∀ w ∈ words, w.temperature = f w.row.toNat w.column.toNat) :
    ofWords side words = .ok ⟨side, Array.ofFn fun k : Fin (side * side) =>
      f (k.val / side) (k.val % side), Array.size_ofFn⟩ := by
  have hroom : ¬ greatestSize < side * side :=
    Nat.not_lt.2 (Nat.le_trans (Nat.mul_le_mul hside hside) (by decide))
  obtain ⟨slots, hfold, hslots⟩ :=
    (takes_place side).accepted placed_nil (accepted_of_perm hspots)
  have hbytes : (fun k : Fin (side * side) =>
      (slots.getD (slot side (k.val / side) (k.val % side)) none).getD 0) =
      fun k : Fin (side * side) => f (k.val / side) (k.val % side) := by
    funext k
    have hmem : (k.val / side, k.val % side) ∈ words.map ResultWord.spot :=
      hspots.mem_iff.2 (List.mem_map.2 ⟨k.val, List.mem_range.2 k.isLt, rfl⟩)
    obtain ⟨w, hw, hspot⟩ := List.mem_map.1 hmem
    obtain ⟨hrow, hcolumn⟩ := Prod.mk.inj hspot
    rw [← hrow, ← hcolumn, ← slotOf, hslots.filled w hw, hbyte w hw, Option.getD_some]
  rw [ofWords, if_neg hroom]
  simp only [bind, Except.bind, pure, Except.pure, hfold, length_of_perm hspots, ne_eq,
    not_true_eq_false, if_false]
  exact congrArg Except.ok (HeatMap.mk.injEq .. ▸ ⟨rfl, congrArg Array.ofFn hbytes⟩)

end HeatMap
end DiffusionMesh
