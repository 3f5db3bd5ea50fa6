/-
# Plans and the frames on a link

A plan fixes what the cells of a network are to send: for each cell and iteration the four edges,
and for each cell and direction the cell it is joined with. The frames from a cell in a direction
are then numbered by iteration, and a link in that direction holds a run of them: those sent but
not yet taken.

| end | what it does to the run `taken … sent - 1` |
| --- | --- |
| sender | `frame sent` goes in, `sent` grows |
| receiver | `frame taken` comes out, `taken` grows |

Main statements: `Carries.offer` and `Carries.arrival`, sending and taking move the two bounds.
-/

import DiffusionMesh.Halo.Exchange

namespace DiffusionMesh

/-- The parity of the `t`-th iteration. -/
def Parity.ofRound (t : Nat) : Parity := .ofIteration (UInt32.ofNat t)

theorem Parity.ofRound_eq (t : Nat) : ofRound t = if t % 2 = 0 then .even else .odd := by
  have hbit : (UInt32.ofNat t &&& 1).toNat = t % 2 := by
    rw [UInt32.toNat_and, UInt32.toNat_ofNat', show (1 : UInt32).toNat = 2 ^ 1 - 1 from rfl,
      Nat.and_two_pow_sub_one_eq_mod, show 2 ^ 32 = 2 * 2 ^ 31 from rfl, Nat.mod_mul_right_mod]
  simp only [ofRound, ofIteration, ← UInt32.toNat_inj, hbit, UInt32.toNat_zero]

/-- Consecutive iterations differ in parity. -/
theorem Parity.ofRound_succ_ne (t : Nat) : ofRound (t + 1) ≠ ofRound t := by
  rw [ofRound_eq, ofRound_eq]
  split <;> split <;> first | omega | exact nofun

/-- What the cells of a network are to send, and with whom they are joined. -/
structure Plan where
  /-- The number of iterations. -/
  rounds : Nat
  edgeLength : Nat
  /-- The cell that a cell is joined with in a direction. -/
  mate : Nat → Direction → Option Nat
  /-- The edges that a cell sends in an iteration. -/
  edges : Nat → Nat → Compass Edge
  /-- The incoming edges of a cell before the first iteration. -/
  initial : Nat → Compass Edge
  mate_symm : ∀ {i : Nat} {d : Direction} {j : Nat}, mate i d = some j → mate j d.opposite = some i
  mate_ne : ∀ {i : Nat} {d : Direction} {j : Nat}, mate i d = some j → j ≠ i
  size_edges : ∀ i t d, ((edges i t).get d).size = edgeLength

namespace Plan

variable (P : Plan)

/-- The message of an iteration from a cell in a direction. -/
def message (i : Nat) (d : Direction) (t : Nat) : EdgeMessage :=
  ⟨d.opposite, .ofRound t, (P.edges i t).get d⟩

/-- The frame of an iteration from a cell in a direction. -/
def frame (i : Nat) (d : Direction) (t : Nat) : Frame := (P.message i d t).encode

/-- The frames of the iterations `lo, …, hi - 1`. -/
def frames (i : Nat) (d : Direction) (lo hi : Nat) : List Frame :=
  (List.range' lo (hi - lo)).map (P.frame i d)

theorem decode_frame (i : Nat) (d : Direction) (t : Nat) :
    EdgeMessage.decode P.edgeLength (P.frame i d t) = .ok (P.message i d t) := by
  rw [← P.size_edges i t d]
  exact EdgeMessage.decode_encode (P.message i d t)

@[simp] theorem length_frames (i : Nat) (d : Direction) (lo hi : Nat) :
    (P.frames i d lo hi).length = hi - lo := by
  simp [frames]

theorem frames_self (i : Nat) (d : Direction) (n : Nat) : P.frames i d n n = [] := by
  simp [frames]

/-- The first frame of a run. -/
theorem frames_eq_cons (i : Nat) (d : Direction) {lo hi : Nat} (h : lo < hi) :
    P.frames i d lo hi = P.frame i d lo :: P.frames i d (lo + 1) hi := by
  rw [frames, show hi - lo = (hi - (lo + 1)) + 1 by omega, List.range'_succ, List.map_cons]
  rfl

/-- A run grows at its end. -/
theorem frames_succ (i : Nat) (d : Direction) {lo hi : Nat} (h : lo ≤ hi) :
    P.frames i d lo (hi + 1) = P.frames i d lo hi ++ [P.frame i d hi] := by
  rw [frames, show hi + 1 - lo = (hi - lo) + 1 by omega, List.range'_1_concat, List.map_append,
    show lo + (hi - lo) = hi by omega]
  rfl

end Plan

/-- A link from a cell in a direction holds the frames sent and not taken, and its ends are held
or given up as stated. -/
structure Link.Carries (l : Link) (P : Plan) (i : Nat) (d : Direction) (taken sent : Nat)
    (senderOpen receiverOpen : Bool) : Prop where
  queue : l.queue = P.frames i d taken sent
  le : taken ≤ sent
  capacity : 1 ≤ l.capacity
  sender : l.senderOpen = senderOpen
  receiver : l.receiverOpen = receiverOpen

namespace Link.Carries

variable {l : Link} {P : Plan} {i : Nat} {d : Direction} {taken sent : Nat} {a b : Bool}

/-- A link with a receiver takes the next frame or is full, and a full link holds a frame. -/
theorem offer (h : l.Carries P i d taken sent a true) :
    (∃ l', l.offer (P.frame i d sent) = .taken l' ∧ l'.Carries P i d taken (sent + 1) a true) ∨
      l.offer (P.frame i d sent) = .full ∧ taken < sent := by
  have hcap := h.capacity
  by_cases hroom : l.queue.length < l.capacity
  · refine .inl ⟨{ l with queue := P.frames i d taken (sent + 1) }, ?_, rfl,
      Nat.le_succ_of_le h.le, hcap, h.sender, h.receiver⟩
    rw [Link.offer, if_pos h.receiver, if_pos hroom, P.frames_succ i d h.le, h.queue]
  · refine .inr ⟨by rw [Link.offer, if_pos h.receiver, if_neg hroom], ?_⟩
    rw [h.queue, P.length_frames] at hroom
    omega

/-- A link with frames gives the oldest. -/
theorem arrival (h : l.Carries P i d taken sent a b) (hlt : taken < sent) :
    ∃ l', l.arrival = .frame (P.frame i d taken) l' ∧ l'.Carries P i d (taken + 1) sent a b := by
  have hq : l.queue = P.frame i d taken :: P.frames i d (taken + 1) sent := by
    rw [h.queue, P.frames_eq_cons i d hlt]
  refine ⟨{ l with queue := P.frames i d (taken + 1) sent }, ?_, rfl, hlt, h.capacity, h.sender,
    h.receiver⟩
  rw [Link.arrival, hq]

/-- A link without frames has nothing for now, or nothing at all once its sender is gone. -/
theorem arrival_self (h : l.Carries P i d sent sent a b) :
    l.arrival = if a then .nothing else .hungUp := by
  rw [Link.arrival, h.queue, P.frames_self, ← h.sender]

theorem closeSender (h : l.Carries P i d taken sent a b) :
    l.closeSender.Carries P i d taken sent false b :=
  ⟨h.queue, h.le, h.capacity, rfl, h.receiver⟩

/-- A receiver that has taken all frames gives up nothing with its end. -/
theorem closeReceiver (h : l.Carries P i d sent sent a b) :
    l.closeReceiver.Carries P i d sent sent a false :=
  ⟨(P.frames_self i d sent).symm, h.le, h.capacity, h.sender, rfl⟩

end Link.Carries
end DiffusionMesh
