import Vllm.Proofs.Distributed.ShmBroadcast

/-!
# `Vllm.Proofs.Distributed.BroadcastFrame`: the frame of a message fits in its chunk

The estimate counts two bytes less for the head than are written and four bytes for each buffer, so
it is one byte short of the frame. It is compared with `>=`: a frame that takes the last byte of the
chunk is still written.

* `length_chunkBytes`: the frame is one byte longer than the estimate.
* `writeChunk_eq`: the slices that are written make up the frame, and the rest of the chunk stays.
-/

set_option autoImplicit false

namespace Vllm.Proofs.Distributed.ShmBroadcast

open Vllm.Lib Vllm.Distributed Vllm.Distributed.MessageQueue List

/-- A slice that is written behind a first part. -/
theorem setSlice_append (pre rest bytes : Bytes) (h : bytes.length ≤ rest.length) :
    setSlice (pre ++ rest) pre.length bytes = .ok (pre ++ bytes ++ rest.drop bytes.length) := by
  unfold setSlice
  rw [drop_left, if_neg (by omega), take_left, drop_length_add_append]

/-- The number of bytes of the buffers in a frame. -/
theorem length_buffers (m : Message) :
    (m.flatMap fun b => toBytesBig b.length 4 ++ b).length = (m.map fun b => b.length + 4).sum := by
  induction m with
  | nil => rfl
  | cons b m ih =>
    rw [flatMap_cons, length_append, ih, map_cons, sum_cons, length_append,
      length_toBytesBig]
    omega

variable {q : MessageQueue} {m : Message}

theorem length_chunkBytes (hm : m ≠ []) (h : q.overflows m = false) :
    (q.chunkBytes m).length = totalBytes m + (m.headD []).length + 1 := by
  cases m with
  | nil => exact absurd rfl hm
  | cons b m =>
    unfold chunkBytes totalBytes
    rw [h, if_neg (by decide), length_cons, length_append, length_toBytesBig,
      length_buffers, map_cons, sum_cons]
    simp only [drop_succ_cons, drop_zero, headD_cons]
    omega

/-- The loop over the buffers writes one behind the other. -/
theorem writeBuffers_eq (pre rest : Bytes)
    (h : (m.flatMap fun b => toBytesBig b.length 4 ++ b).length ≤ rest.length) :
    m.foldlM writeBuffer (pre ++ rest, pre.length) =
    .ok (pre ++ (m.flatMap fun b => toBytesBig b.length 4 ++ b) ++
        rest.drop (m.flatMap fun b => toBytesBig b.length 4 ++ b).length,
      pre.length + (m.flatMap fun b => toBytesBig b.length 4 ++ b).length) := by
  induction m generalizing pre rest with
  | nil => simp; rfl
  | cons b m ih =>
    have hfour := length_toBytesBig b.length 4
    rw [flatMap_cons, length_append, length_append, hfour] at h
    have hsize := setSlice_append pre rest (toBytesBig b.length 4) (by omega)
    have hdata := setSlice_append (pre ++ toBytesBig b.length 4) (rest.drop 4) b
      (by rw [length_drop]; omega)
    rw [length_append, hfour] at hdata
    have hrest := ih (pre ++ toBytesBig b.length 4 ++ b) ((rest.drop 4).drop b.length)
      (by rw [length_drop, length_drop]; omega)
    rw [length_append, length_append, hfour] at hrest
    have hstep : writeBuffer (pre ++ rest, pre.length) b =
        .ok (pre ++ toBytesBig b.length 4 ++ b ++ (rest.drop 4).drop b.length,
          pre.length + 4 + b.length) := by
      unfold writeBuffer
      rw [hsize, hfour, except_ok_bind, hdata, except_ok_bind]
      rfl
    rw [foldlM_cons, hstep, except_ok_bind, hrest]
    simp [append_assoc, hfour, Nat.add_assoc]

/-- The frame is written from the first byte on. -/
theorem writeChunk_eq (h : q.overflows m = false) {buf : Bytes}
    (hfits : (q.chunkBytes m).length ≤ buf.length) :
    q.writeChunk m buf = .ok (q.chunkBytes m ++ buf.drop (q.chunkBytes m).length) := by
  have hframe : q.chunkBytes m =
      [0] ++ toBytesBig m.length 2 ++ m.flatMap fun b => toBytesBig b.length 4 ++ b := by
    unfold chunkBytes
    rw [h, if_neg (by decide)]
    rfl
  have htwo := length_toBytesBig m.length 2
  rw [hframe, length_append, length_append, htwo, length_singleton] at hfits
  have hmark := setSlice_append [] buf [0] (by rw [length_singleton]; omega)
  have hcount := setSlice_append [0] (buf.drop 1) (toBytesBig m.length 2)
    (by rw [length_drop]; omega)
  have hbuffers := writeBuffers_eq (m := m) ([0] ++ toBytesBig m.length 2) ((buf.drop 1).drop 2)
    (by rw [length_drop, length_drop]; omega)
  rw [length_append, htwo] at hbuffers
  unfold writeChunk
  rw [h, if_neg (by decide)]
  dsimp only [nil_append, length_nil] at hmark
  rw [hmark, except_ok_bind]
  dsimp only [length_singleton] at hcount hbuffers ⊢
  rw [hcount, except_ok_bind, htwo, hbuffers, except_ok_bind, hframe, drop_drop, drop_drop,
    length_append, length_append, htwo, ← Nat.add_assoc]
  rfl

/-- A message overflows, or its frame lies in the chunk and a reader takes the message out of it. -/
theorem frame_fits_and_parses (q : MessageQueue) (m : Message) (hm : m ≠ [])
    (hcount : m.length < 65536) (hsizes : ∀ b ∈ m, b.length < 4294967296) (buf : Bytes)
    (hbuf : buf.length = q.maxChunkBytes) :
    q.overflows m = true ∨ (q.chunkBytes m).length ≤ q.maxChunkBytes ∧
      ∃ buf', q.writeChunk m buf = .ok buf' ∧
        buf' = q.chunkBytes m ++ buf.drop (q.chunkBytes m).length ∧
        parseChunk buf' = some (some m) := by
  cases h : q.overflows m with
  | true => exact .inl rfl
  | false =>
    have hfits : (q.chunkBytes m).length ≤ q.maxChunkBytes := by
      rw [length_chunkBytes hm h]
      unfold overflows at h
      rw [decide_eq_false_iff_not] at h
      omega
    refine .inr ⟨hfits, _, writeChunk_eq h (hbuf ▸ hfits), rfl, parseChunk_append ?_⟩
    have hparse := parseChunk_chunkBytes (q := q) (m := m) ⟨hm, fun _ => ⟨hcount, hsizes⟩⟩
    rw [h] at hparse
    exact hparse

/-- A frame of ten bytes in a chunk of ten bytes. -/
theorem frame_of_three_bytes : overflows ⟨1, 0, 1, 10, by decide⟩ [[1, 2, 3]] = true ∨
      (chunkBytes ⟨1, 0, 1, 10, by decide⟩ [[1, 2, 3]]).length ≤ 10 ∧
        ∃ buf', writeChunk ⟨1, 0, 1, 10, by decide⟩ [[1, 2, 3]] (List.replicate 10 7) = .ok buf' ∧
          buf' = chunkBytes ⟨1, 0, 1, 10, by decide⟩ [[1, 2, 3]] ++
            (List.replicate 10 (7 : UInt8)).drop
              (chunkBytes ⟨1, 0, 1, 10, by decide⟩ [[1, 2, 3]]).length ∧
          parseChunk buf' = some (some [[1, 2, 3]]) :=
  frame_fits_and_parses ⟨1, 0, 1, 10, by decide⟩ [[1, 2, 3]] (by decide) (by decide) (by decide) _
    rfl

end Vllm.Proofs.Distributed.ShmBroadcast
