/-
# Which result words make up a heat map

Result words make up a heat map of side `n` exactly when they name every position of the square
once. What happens otherwise depends on the words in their order:

| words | outcome |
| --- | --- |
| one of them is refused | the first refused one is named |
| all accepted, but not `n · n` of them | their number is named |
| all accepted, and `n · n` of them | a heat map |

Accepted words name different positions of the square, so `n · n` of them leave none out
(`Accepted.perm`). All this supposes that one piece of memory has a byte for every position; if it
has not, nothing is read at all and the program is brought down (`ofWords_beyond_memory`).

The slots of `place` stand for three variables of a loop: the bytes, a mark at each position that is
known, and the number of words. `Draft` is that loop with every index checked; none is ever out of
range (`assemble_eq`). Main statement: `accepts_complete_results`.
-/

import DiffusionMesh.Proofs.Image.Mosaic
import DiffusionMesh.Proofs.Tile.Field
import Mathlib.Data.List.Perm.Subperm

namespace DiffusionMesh
namespace HeatMap

variable {side : Nat} {words before after : List ResultWord} {w : ResultWord} {cause : ResultFault}

/-! ### Complete results -/

/-- **Accepted words, as many as there are positions, name every position**: they name different
positions of the square, and no more would fit. -/
theorem Accepted.perm (h : Accepted side words) (hlength : words.length = side * side) :
    (words.map ResultWord.spot).Perm (squares side) := by
  have hsubset : words.map ResultWord.spot ⊆ squares side := by
    intro spot hspot
    obtain ⟨w, hw, rfl⟩ := List.mem_map.1 hspot
    exact mem_squares.2 (h.inside w hw)
  refine (List.subperm_of_subset h.nodup hsubset).perm_of_length_le ?_
  simp [squares, hlength]

/-- Words that name every position once, said position by position. -/
theorem perm_squares_iff : (words.map ResultWord.spot).Perm (squares side) ↔
    (∀ w ∈ words, w.row.toNat < side ∧ w.column.toNat < side) ∧
    ∀ r c, r < side → c < side → (words.map ResultWord.spot).count (r, c) = 1 := by
  constructor
  · intro h
    refine ⟨(accepted_of_perm h).inside, fun r c hr hc => ?_⟩
    rw [h.count_eq]
    exact List.count_eq_one_of_mem (nodup_squares side) (mem_squares.2 ⟨hr, hc⟩)
  · rintro ⟨hinside, hcount⟩
    have hmem : ∀ spot ∈ words.map ResultWord.spot, spot.1 < side ∧ spot.2 < side := by
      intro spot hspot
      obtain ⟨w, hw, rfl⟩ := List.mem_map.1 hspot
      exact hinside w hw
    have hnodup : (words.map ResultWord.spot).Nodup := by
      refine List.nodup_iff_count_le_one.2 fun spot => ?_
      by_cases hspot : spot ∈ words.map ResultWord.spot
      · exact Nat.le_of_eq (hcount _ _ (hmem spot hspot).1 (hmem spot hspot).2)
      · rw [List.count_eq_zero_of_not_mem hspot]
        exact Nat.zero_le 1
    refine (List.perm_ext_iff_of_nodup hnodup (nodup_squares side)).2 fun ⟨r, c⟩ => ?_
    rw [mem_squares]
    refine ⟨hmem (r, c), fun ⟨hr, hc⟩ => List.count_pos_iff.1 ?_⟩
    rw [hcount r c hr hc]
    exact Nat.one_pos

/-- A position of the square is named by one word only. -/
theorem exists_unique_of_perm (h : (words.map ResultWord.spot).Perm (squares side)) {r c : Nat}
    (hr : r < side) (hc : c < side) :
    ∃ w ∈ words, w.spot = (r, c) ∧ ∀ v ∈ words, v.spot = (r, c) → v = w := by
  obtain ⟨w, hw, hspot⟩ := List.mem_map.1 (h.mem_iff.2 (mem_squares.2 ⟨hr, hc⟩))
  refine ⟨w, hw, hspot, fun v hv hv' => ?_⟩
  exact List.inj_on_of_nodup_map (accepted_of_perm h).nodup hv hw (hv'.trans hspot.symm)

/-- Words reach no further than their twelve bits. -/
theorem side_le_of_perm (h : (words.map ResultWord.spot).Perm (squares side)) : side ≤ 4096 := by
  by_contra hlt
  obtain ⟨w, -, hspot, -⟩ := exists_unique_of_perm h (r := 4096) (c := 0) (by omega) (by omega)
  exact Nat.ne_of_lt w.row_lt (congrArg Prod.fst hspot)

/-! ### The outcome -/

/-- The temperature that words give for a position, zero if none does. -/
def byteNamed (words : List ResultWord) (r c : Nat) : UInt8 :=
  (words.find? fun w => w.spot = (r, c)).elim 0 ResultWord.temperature

theorem temperature_eq_byteNamed (h : Accepted side words) (hw : w ∈ words) :
    w.temperature = byteNamed words w.row.toNat w.column.toNat := by
  change _ = (words.find? fun v => v.spot = w.spot).elim 0 ResultWord.temperature
  cases hfind : words.find? fun v => v.spot = w.spot with
  | none => simpa using List.find?_eq_none.1 hfind w hw
  | some v =>
    have hv : v ∈ words := List.mem_of_find?_eq_some hfind
    have hspot : v.spot = w.spot := by simpa using List.find?_some hfind
    rw [List.inj_on_of_nodup_map h.nodup hv hw hspot]
    rfl

/-- Complete results make up a heat map that holds the temperature of each word at its position. -/
theorem exists_ofWords (h : (words.map ResultWord.spot).Perm (squares side)) :
    ∃ m, ofWords side words = .ok m ∧ m.side = side ∧
      ∀ w ∈ words, m.get? w.row.toNat w.column.toNat = some w.temperature := by
  have haccepted := accepted_of_perm h
  refine ⟨_, ofWords_eq (side_le_of_perm h) h fun w hw => temperature_eq_byteNamed haccepted hw, rfl,
    fun w hw => ?_⟩
  obtain ⟨hr, hc⟩ := haccepted.inside w hw
  rw [get?, Array.getElem?_ofFn, dif_pos (Tile.index_lt hr hc), Solver.div_row hc, Solver.mod_row hc,
    temperature_eq_byteNamed haccepted hw]

/-- Without memory for every position, no word is read. -/
theorem ofWords_of_lt (h : greatestSize < side * side) :
    ofWords side words = .error (.noRoom side) := by
  rw [ofWords, if_pos h]
  rfl

section

variable (hroom : side * side ≤ greatestSize)

include hroom

/-- With memory for every position, the words are read. -/
theorem ofWords_eq_bind : ofWords side words =
    (words.foldlM (place side) #[]).bind fun slots =>
      if words.length ≠ side * side then .error (.wordCount (side * side) words.length)
      else .ok ⟨side, Array.ofFn fun k : Fin (side * side) =>
        (slots.getD (slot side (k.val / side) (k.val % side)) none).getD 0, Array.size_ofFn⟩ := by
  rw [ofWords, if_neg (Nat.not_lt.2 hroom)]
  rfl

theorem ofWords_of_refused (h : Accepted side before) (hrefused : Refused side before w cause) :
    ofWords side (before ++ w :: after) = .error cause := by
  rw [ofWords_eq_bind hroom, (takes_place side).refused placed_nil h hrefused]
  rfl

theorem ofWords_of_length_ne (h : Accepted side words) (hlength : words.length ≠ side * side) :
    ofWords side words = .error (.wordCount (side * side) words.length) := by
  obtain ⟨slots, hfold, -⟩ := (takes_place side).accepted placed_nil h
  rw [ofWords_eq_bind hroom, hfold]
  exact if_pos hlength

/-- A heat map is made exactly of complete results. -/
theorem exists_ofWords_iff : (∃ m, ofWords side words = .ok m) ↔
    (words.map ResultWord.spot).Perm (squares side) := by
  refine ⟨fun ⟨m, hm⟩ => ?_, fun h => ?_⟩
  · rcases accepted_or_refused side words with h | ⟨before, w, after, cause, rfl, h, hrefused⟩
    · refine h.perm (not_not.1 fun hlength => ?_)
      rw [ofWords_of_length_ne hroom h hlength] at hm
      cases hm
    · rw [ofWords_of_refused hroom h hrefused] at hm
      cases hm
  · obtain ⟨m, hm, -⟩ := exists_ofWords h
    exact ⟨m, hm⟩

/-- A failure names the first refused word if there is one, and the number of words otherwise. -/
theorem ofWords_eq_error_iff : ofWords side words = .error cause ↔
    (∃ before w after, words = before ++ w :: after ∧ Accepted side before ∧
      Refused side before w cause) ∨
    Accepted side words ∧ words.length ≠ side * side ∧
      cause = .wordCount (side * side) words.length := by
  constructor
  · intro hcause
    rcases accepted_or_refused side words with h | ⟨before, w, after, other, rfl, h, hrefused⟩
    · by_cases hlength : words.length = side * side
      · obtain ⟨m, hm, -⟩ := exists_ofWords (h.perm hlength)
        rw [hm] at hcause
        cases hcause
      · rw [ofWords_of_length_ne hroom h hlength] at hcause
        exact .inr ⟨h, hlength, (Except.error.inj hcause).symm⟩
    · rw [ofWords_of_refused hroom h hrefused] at hcause
      obtain rfl := Except.error.inj hcause
      exact .inl ⟨before, w, after, rfl, h, hrefused⟩
  · rintro (⟨before, w, after, rfl, h, hrefused⟩ | ⟨h, hlength, rfl⟩)
    · exact ofWords_of_refused hroom h hrefused
    · exact ofWords_of_length_ne hroom h hlength

end

/-- Complete results make up the same heat map in whatever order they come. -/
theorem ofWords_of_perm {m : HeatMap} (hm : ofWords side words = .ok m) {others : List ResultWord}
    (hperm : others.Perm words) : ofWords side others = .ok m := by
  have hroom : side * side ≤ greatestSize := by
    by_contra hlt
    rw [ofWords_of_lt (Nat.not_le.1 hlt)] at hm
    cases hm
  have h := (exists_ofWords_iff hroom).1 ⟨m, hm⟩
  have hothers := (hperm.map ResultWord.spot).trans h
  have hbyte := fun w hw => temperature_eq_byteNamed (w := w) (accepted_of_perm h) hw
  have hside := side_le_of_perm h
  rw [ofWords_eq hside hothers fun w hw => hbyte w (hperm.mem_iff.1 hw), ← ofWords_eq hside h hbyte, hm]

/-! ### The loop, index by index -/

/-- A heat map under construction: its bytes, a mark at each position that is known, and how many
words have come. -/
structure Draft where
  bytes : Array UInt8
  seen : Array Bool
  count : Nat

namespace Draft

/-- Puts one word into a draft. An index out of range is a failure without a cause. -/
def put (side : Nat) (d : Draft) (w : ResultWord) : Except (Option ResultFault) Draft :=
  let row := w.row.toNat
  let column := w.column.toNat
  if row < side ∧ column < side then
    let k := row * side + column
    match d.seen[k]?, d.bytes[k]? with
    | some false, some _ =>
      .ok ⟨d.bytes.setIfInBounds k w.temperature, d.seen.setIfInBounds k true, d.count + 1⟩
    | some true, some _ => .error (some (.duplicate row column))
    | _, _ => .error none
  else .error (some (.outside w side))

/-- A draft of a square of which nothing is known yet. -/
def blank (side : Nat) : Draft :=
  ⟨Array.replicate (side * side) 0, Array.replicate (side * side) false, 0⟩

/-- The bytes that result words make up, put in one after the other. -/
def assemble (side : Nat) (words : List ResultWord) :
    Except (Option ResultFault) (Array UInt8) := do
  if greatestSize < side * side then
    throw (some (.noRoom side))
  let d ← words.foldlM (put side) (blank side)
  if d.count ≠ side * side then
    throw (some (.wordCount (side * side) d.count))
  return d.bytes

/-- What a draft holds after some words. -/
structure Holds (side : Nat) (words : List ResultWord) (d : Draft) : Prop where
  size : d.bytes.size = side * side
  seen : ∀ {r c}, r < side → c < side →
    d.seen[r * side + c]? = some (decide ((r, c) ∈ words.map ResultWord.spot))
  bytes : ∀ w ∈ words, d.bytes[w.row.toNat * side + w.column.toNat]? = some w.temperature
  count : d.count = words.length

variable {d : Draft}

theorem holds_blank (side : Nat) : Holds side [] (blank side) where
  size := Array.size_replicate
  seen hr hc := by simp [blank, Tile.index_lt hr hc]
  bytes := nofun
  count := rfl

theorem Holds.exists_byte (h : Holds side words d) {r c : Nat} (hr : r < side) (hc : c < side) :
    ∃ b, d.bytes[r * side + c]? = some b :=
  ⟨_, Array.getElem?_eq_getElem (h.size ▸ Tile.index_lt hr hc)⟩

/-- **Words are put into a draft by the rule**, and every index is in range. -/
theorem takes_put (side : Nat) : Takes side (Holds side) some (put side) := by
  constructor
  · intro before d w h haccepted
    obtain ⟨hbefore, ⟨hr, hc⟩, hnew⟩ := accepted_concat.1 haccepted
    have hseen := h.seen hr hc
    obtain ⟨b, hb⟩ := h.exists_byte hr hc
    rw [show decide ((w.row.toNat, w.column.toNat) ∈ before.map ResultWord.spot) = false from
      decide_eq_false hnew] at hseen
    refine ⟨_, by simp only [put, hr, hc, and_self, if_true, hseen, hb]; rfl, ?_⟩
    -- the index of the word is that of no other position
    have hindex : ∀ {r c}, c < side → w.row.toNat * side + w.column.toNat = r * side + c →
        w.spot = (r, c) := fun hc' heq => Prod.ext_iff.2 (eq_of_mul_add_eq hc hc' heq)
    constructor
    · simpa using h.size
    · intro r c hr' hc'
      have hlt := Array.getElem?_eq_some_iff.1 hseen
      rw [Array.getElem?_setIfInBounds, h.seen hr' hc']
      split
      · next heq => simp [hlt.1, hindex hc' heq]
      · next hne =>
        have hspot : (r, c) ≠ w.spot := by
          rintro heq
          obtain ⟨rfl, rfl⟩ := Prod.mk.inj heq
          exact hne rfl
        simp [hspot]
    · refine List.forall_mem_append.2 ⟨fun v hv => ?_, fun v hv => ?_⟩
      · rw [Array.getElem?_setIfInBounds, if_neg, h.bytes v hv]
        intro heq
        exact hnew (hindex (hbefore.inside v hv).2 heq ▸ List.mem_map_of_mem hv)
      · rw [List.eq_of_mem_singleton hv, Array.getElem?_setIfInBounds, if_pos rfl,
          if_pos (h.size ▸ Tile.index_lt hr hc)]
    · simp [h.count]
  · rintro before d w cause h (hout | ⟨⟨hr, hc⟩, hmem⟩)
    · exact if_neg hout
    · have hseen := h.seen hr hc
      obtain ⟨b, hb⟩ := h.exists_byte hr hc
      rw [show decide ((w.row.toNat, w.column.toNat) ∈ before.map ResultWord.spot) = true from
        decide_eq_true hmem] at hseen
      simp only [put, hr, hc, and_self, if_true, hseen, hb]

/-- A draft of complete results holds the bytes of their heat map. -/
theorem Holds.bytes_eq (h : Holds side words d)
    (hspots : (words.map ResultWord.spot).Perm (squares side)) {m : HeatMap} (hside : m.side = side)
    (hget : ∀ w ∈ words, m.get? w.row.toNat w.column.toNat = some w.temperature) :
    d.bytes = m.bytes := by
  subst hside
  refine Array.ext_getElem? fun k => ?_
  by_cases hk : k < m.side * m.side
  · obtain ⟨r, c, hr, hc, rfl⟩ := Solver.exists_place hk
    obtain ⟨w, hw, hspot, -⟩ := exists_unique_of_perm hspots hr hc
    obtain ⟨rfl, rfl⟩ := Prod.mk.inj hspot
    rw [h.bytes w hw, ← hget w hw, get?]
  · rw [Array.getElem?_eq_none (by have := h.size; omega),
      Array.getElem?_eq_none (by have := m.bytes_size; omega)]

/-- **The loop stays in range and gives what `ofWords` does.** -/
theorem assemble_eq (side : Nat) (words : List ResultWord) :
    assemble side words = ((ofWords side words).map HeatMap.bytes).mapError some := by
  by_cases hroom : side * side ≤ greatestSize
  · rw [assemble, if_neg (Nat.not_lt.2 hroom)]
    rcases accepted_or_refused side words with h | ⟨before, w, after, cause, rfl, h, hrefused⟩
    · obtain ⟨d, hfold, hd⟩ := (takes_put side).accepted (holds_blank side) h
      rw [List.nil_append] at hd
      simp only [bind, Except.bind, pure, Except.pure, hfold, hd.count]
      by_cases hlength : words.length = side * side
      · obtain ⟨m, hm, hside, hget⟩ := exists_ofWords (h.perm hlength)
        rw [hm, if_neg (not_not.2 hlength), hd.bytes_eq (h.perm hlength) hside hget]
        rfl
      · rw [ofWords_of_length_ne hroom h hlength, if_pos hlength]
        rfl
    · rw [ofWords_of_refused hroom h hrefused, (takes_put side).refused (holds_blank side) h hrefused]
      rfl
  · rw [ofWords_of_lt (Nat.not_le.1 hroom), assemble, if_pos (Nat.not_le.1 hroom)]
    rfl

end Draft

/-! ### What is accepted -/

/-- **A heat map is made of complete results, and of nothing else.** As long as there is memory for
the square, words make up a heat map exactly when none lies outside and every position is named once;
the map then holds the temperature of the one word for each position, in whatever order the words
come. Otherwise the failure names the first word that is refused, or the number of words if none is.
If there is no memory for the square, the program is brought down, whatever the words are. The loop
with its three variables gives the same and reads no index out of range. -/
theorem accepts_complete_results (side : Nat) (words : List ResultWord) :
    (side * side ≤ greatestSize →
      ((∃ m, ofWords side words = .ok m) ↔
        (∀ w ∈ words, w.row.toNat < side ∧ w.column.toNat < side) ∧
        ∀ r c, r < side → c < side → (words.map ResultWord.spot).count (r, c) = 1) ∧
      (∀ m, ofWords side words = .ok m → m.side = side ∧
        (∀ r c, r < side → c < side → ∃ w ∈ words, w.spot = (r, c) ∧
          (∀ v ∈ words, v.spot = (r, c) → v = w) ∧ m.get? r c = some w.temperature) ∧
        ∀ others, others.Perm words → ofWords side others = .ok m) ∧
      ∀ cause, ofWords side words = .error cause ↔
        (∃ before w after, words = before ++ w :: after ∧ Accepted side before ∧
          Refused side before w cause) ∨
        Accepted side words ∧ words.length ≠ side * side ∧
          cause = .wordCount (side * side) words.length) ∧
    (greatestSize < side * side → side * side < UInt64.size →
      ofWords side words = .error (.noRoom side) ∧
        (Failure.resultMismatch (.noRoom side)).aborts = true) ∧
    Draft.assemble side words = ((ofWords side words).map HeatMap.bytes).mapError some := by
  refine ⟨fun hroom => ⟨(exists_ofWords_iff hroom).trans perm_squares_iff, fun m hm => ?_,
    fun _ => ofWords_eq_error_iff hroom⟩, fun hbeyond _ => ⟨ofWords_of_lt hbeyond, rfl⟩,
    Draft.assemble_eq side words⟩
  have hspots := (exists_ofWords_iff hroom).1 ⟨m, hm⟩
  obtain ⟨m', hm', hside, hget⟩ := exists_ofWords hspots
  obtain rfl : m' = m := Except.ok.inj (hm'.symm.trans hm)
  refine ⟨hside, fun r c hr hc => ?_, fun _ => ofWords_of_perm hm⟩
  obtain ⟨w, hw, hspot, hunique⟩ := exists_unique_of_perm hspots hr hc
  refine ⟨w, hw, hspot, hunique, ?_⟩
  obtain ⟨rfl, rfl⟩ := Prod.mk.inj hspot
  exact hget w hw

/-- Four words of a square of side two in another order, the same with a fifth one in front of the
last that names a position again, and the four words for a square that no memory holds. -/
theorem accepts_complete_results_shuffled :
    let words : List ResultWord := [.pack 1 1 40, .pack 0 1 20, .pack 1 0 30, .pack 0 0 10]
    2 * 2 ≤ greatestSize ∧
    (∃ m, ofWords 2 words = .ok m ∧ m.get? 1 0 = some 30) ∧
    ofWords 2 (words.take 3 ++ [.pack 0 1 50, .pack 0 0 10]) = .error (.duplicate 0 1) ∧
    ofWords 3037000500 words = .error (.noRoom 3037000500) := by
  intro words
  have hroom : 2 * 2 ≤ greatestSize := by decide
  obtain ⟨hcomplete, hmap, -⟩ := (accepts_complete_results 2 words).1 hroom
  have hcount : ∀ r < 2, ∀ c < 2, (words.map ResultWord.spot).count (r, c) = 1 := by decide
  obtain ⟨m, hm⟩ := hcomplete.2 ⟨by decide, fun r c hr hc => hcount r hr c hc⟩
  obtain ⟨-, hread, -⟩ := hmap m hm
  obtain ⟨w, hw, hspot, -, hget⟩ := hread 1 0 (by decide) (by decide)
  have hthirty : ∀ v ∈ words, v.spot = (1, 0) → v.temperature = 30 := by decide
  rw [hthirty w hw hspot] at hget
  obtain ⟨-, -, hfailure⟩ :=
    (accepts_complete_results 2 (words.take 3 ++ [.pack 0 1 50, .pack 0 0 10])).1 hroom
  refine ⟨hroom, ⟨m, hm, hget⟩, (hfailure _).2 (.inl ⟨words.take 3, .pack 0 1 50, [.pack 0 0 10], rfl,
    ⟨by decide, by decide⟩, .duplicate (by decide) (by decide)⟩), ?_⟩
  exact ((accepts_complete_results 3037000500 words).2.1 (by decide) (by decide)).1

/-- A square may have a flat index for every position and still be too large for memory. Then no
words are counted, and the program is brought down. -/
theorem ofWords_beyond_memory : 3037000500 * 3037000500 < UInt64.size ∧
    ofWords 3037000500 [] ≠ .error (.wordCount (3037000500 * 3037000500) 0) ∧
    ∃ cause, ofWords 3037000500 [] = .error cause ∧
      (Failure.resultMismatch cause).aborts = true := by
  have hbeyond : ofWords 3037000500 [] = .error (.noRoom 3037000500) :=
    ofWords_of_lt (by simp [greatestSize])
  refine ⟨by decide, ?_, _, hbeyond, rfl⟩
  rw [hbeyond]
  exact nofun

end HeatMap
end DiffusionMesh
