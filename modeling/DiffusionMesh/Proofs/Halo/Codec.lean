/-
# Frames and messages

A frame is accepted for edges of `S` temperatures if it has `S + 1` words and its header is below 8.
The accepted frames and the messages with an edge of `S` temperatures are the same thing written in
two ways:

```
             encode
   message ─────────→ frame        S temperatures, any bits  ↔  S words behind the header
           ←─────────
             decode
```

All eight headers below 8 are taken: the four directions, each with either parity. So no accepted
frame lacks a direction, and a frame is refused for one of three reasons alone (`Frame.Faulty`):

| checked in turn | refused |
| --- | --- |
| is there a header | the empty frame |
| are there `S` words behind it | a frame of another length |
| is it below 8 | a header with reserved bits |
-/

import DiffusionMesh.Halo.Message

namespace DiffusionMesh

/-- Why a frame is refused for edges of `S` temperatures. The conditions exclude each other: an
earlier check hides what a later one would find. -/
inductive Frame.Faulty (S : Nat) : Frame → FrameFault → Prop where
  | empty : Faulty S [] .empty
  | length {header : UInt32} {values : List UInt32} : values.length ≠ S →
      Faulty S (header :: values) (.length S values.length)
  | reservedBits {header : UInt32} {values : List UInt32} : values.length = S → 8 ≤ header →
      Faulty S (header :: values) (.reservedBits header)

namespace EdgeMessage

variable {S : Nat} {frame : Frame} {header : UInt32} {values : List UInt32}

/-- Every word below 8 is the header of a direction and a parity, and the two are read off it. -/
theorem exists_headerWord (h : header < 8) : ∃ d p, header = headerWord d p := by
  have hcases : header = 0 ∨ header = 1 ∨ header = 2 ∨ header = 3 ∨ header = 4 ∨ header = 5 ∨
      header = 6 ∨ header = 7 := by
    simp only [← UInt32.toNat_inj, UInt32.lt_iff_toNat_lt, UInt32.reduceToNat] at h ⊢
    omega
  rcases hcases with rfl | rfl | rfl | rfl | rfl | rfl | rfl | rfl
  · exact ⟨.north, .even, by decide⟩
  · exact ⟨.north, .odd, by decide⟩
  · exact ⟨.south, .even, by decide⟩
  · exact ⟨.south, .odd, by decide⟩
  · exact ⟨.east, .even, by decide⟩
  · exact ⟨.east, .odd, by decide⟩
  · exact ⟨.west, .even, by decide⟩
  · exact ⟨.west, .odd, by decide⟩

/-- A frame with a good header and length is the frame of a message. -/
theorem exists_encode (hlength : values.length = S) (hheader : header < 8) :
    ∃ m : EdgeMessage, m.edge.size = S ∧ m.encode = header :: values := by
  obtain ⟨d, p, rfl⟩ := exists_headerWord hheader
  refine ⟨⟨d, p, (values.map Temperature.ofWord).toArray⟩, ?_, ?_⟩
  · simp [hlength]
  · simp [encode, EdgeMessage.header, Function.comp_def]

/-- The frame of a message has one word more than its edge, and a header below 8. -/
theorem accepted_encode (m : EdgeMessage) :
    m.encode.length = m.edge.size + 1 ∧ ∃ header ∈ m.encode.head?, header < 8 := by
  refine ⟨by simp [encode], m.header, rfl, headerWord_lt _ _⟩

/-- A frame is refused for the first check that it fails. -/
theorem decode_of_faulty {fault : FrameFault} (h : Frame.Faulty S frame fault) :
    decode S frame = .error fault := by
  cases h with
  | empty => rfl
  | length hlength => rw [decode, if_pos hlength]
  | reservedBits hlength hheader => rw [decode, if_neg (fun hne => hne hlength), if_pos hheader]

/-- **Each frame is faulty or that of a message.** -/
theorem faulty_or_encode (S : Nat) (frame : Frame) :
    (∃ fault, Frame.Faulty S frame fault) ∨
      ∃ m : EdgeMessage, m.edge.size = S ∧ m.encode = frame := by
  rcases frame with _ | ⟨header, values⟩
  · exact .inl ⟨_, .empty⟩
  · by_cases hlength : values.length = S
    · rcases UInt32.lt_or_le header 8 with hheader | hheader
      · exact .inr (exists_encode hlength hheader)
      · exact .inl ⟨_, .reservedBits hlength hheader⟩
    · exact .inl ⟨_, .length hlength⟩

/-- A message is read back from its frame, and from no other. -/
theorem decode_eq_ok_iff {m : EdgeMessage} :
    decode S frame = .ok m ↔ m.edge.size = S ∧ m.encode = frame := by
  constructor
  · intro h
    rcases faulty_or_encode S frame with ⟨fault, hfault⟩ | ⟨m', rfl, rfl⟩
    · simp [decode_of_faulty hfault] at h
    · rw [decode_encode] at h
      obtain rfl := Except.ok.inj h
      exact ⟨rfl, rfl⟩
  · rintro ⟨rfl, rfl⟩
    exact decode_encode m

/-- A frame is refused exactly when it is faulty. -/
theorem decode_eq_error_iff {fault : FrameFault} :
    decode S frame = .error fault ↔ Frame.Faulty S frame fault := by
  refine ⟨fun h => ?_, decode_of_faulty⟩
  rcases faulty_or_encode S frame with ⟨fault', hfault⟩ | ⟨m, rfl, rfl⟩
  · rw [decode_of_faulty hfault] at h
    obtain rfl := Except.error.inj h
    exact hfault
  · simp [decode_encode] at h

/-- **The codec is exact in both directions.** A frame is accepted exactly when it has one word more
than the edge has temperatures and a header below 8. What it is then read as is the message whose
frame it is, word for word, and every message with an edge of that length is read back from its
frame. Any other frame is malformed, for the first check that it fails; that its header names no
direction is never the reason. -/
theorem codec_exact (S : Nat) (frame : Frame) :
    ((∃ m, decode S frame = .ok m) ↔
      frame.length = S + 1 ∧ ∃ header ∈ frame.head?, header < 8) ∧
    (∀ m : EdgeMessage, decode S frame = .ok m ↔ m.edge.size = S ∧ m.encode = frame) ∧
    ∀ fault, decode S frame = .error fault ↔ Frame.Faulty S frame fault := by
  refine ⟨⟨?_, ?_⟩, fun m => decode_eq_ok_iff, fun fault => decode_eq_error_iff⟩
  · rintro ⟨m, h⟩
    obtain ⟨rfl, rfl⟩ := decode_eq_ok_iff.1 h
    exact accepted_encode m
  · rintro ⟨hlength, header, hhead, hheader⟩
    obtain ⟨values, rfl⟩ := List.head?_eq_some_iff.1 hhead
    obtain ⟨m, hsize, hencode⟩ := exists_encode (Nat.succ.inj hlength) hheader
    exact ⟨m, decode_eq_ok_iff.2 ⟨hsize, hencode⟩⟩

/-- The greatest header is that of an odd iteration from the west, and the word of all ones is the
temperature just below zero. -/
example : decode 1 [7, 0xffffffff] = .ok ⟨.west, .odd, #[⟨-1⟩]⟩ := rfl

end EdgeMessage
end DiffusionMesh
