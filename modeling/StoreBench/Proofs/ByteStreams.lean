import Mathlib.Algebra.GroupWithZero.Nat
import Mathlib.Data.List.DropRight
import StoreBench.Proofs.Evaluation
import StoreBench.Skew.BytePool
/-!
# The bytes of a pool

A pool serves four calls in any order. Its place after them follows from two numbers: how often it
was moved to the next block, and how many bytes were taken since it last went back to the start of a
block. So every byte taken has a closed form, and no index leaves its range. A call for the byte
before that place gives the latest byte taken as long as one was taken since the pool last went
back; after that it gives the last byte of the current block.
-/

namespace StoreBench.Skew.BytePool

open StoreBench.Random

/-- What may be asked of a pool. -/
inductive Call where
  | next
  | last
  | reset
  | fill (count : Nat)
  deriving DecidableEq

namespace Call

/-- The number of bytes that a call takes off the stream. -/
def taken : Call → Nat
  | next => 1
  | fill count => count
  | last => 0
  | reset => 0

/-- Whether a call goes back to the start of a block. -/
def rewinds : Call → Bool
  | last => true
  | reset => true
  | next => false
  | fill _ => false

end Call

/-- The number of bytes taken since the pool last went back to the start of a block. -/
def sinceRewind (calls : List Call) : Nat :=
  ((calls.rtakeWhile fun call => !call.rewinds).map Call.taken).sum

variable {start pool : BytePool} {call : Call} {calls : List Call} {resets taken : Nat}

/-- The bytes a call gives, and the pool after it. -/
def serve (pool : BytePool) : Call → Bytes × BytePool
  | .next => ([pool.next.1], pool.next.2)
  | .last => ([pool.last.1], pool.last.2)
  | .reset => ([], (pool.reset : Program .silent BytePool).value)
  | .fill count => pool.fill count

/-- The pool after calls one after the other. -/
def after (pool : BytePool) (calls : List Call) : BytePool :=
  calls.foldl (fun pool call => (pool.serve call).2) pool

/-- The bytes that calls one after the other take off the stream. -/
def stream (pool : BytePool) : List Call → Bytes
  | [] => []
  | call :: calls =>
    (if call.rewinds then [] else (pool.serve call).1) ++ (pool.serve call).2.stream calls

/-- The byte with an index in the endless repetition of a block, the blocks being repeated too.
There is none where an index leaves its range. -/
def byteAt? (pool : BytePool) (resets taken : Nat) : Option UInt8 := do
  let block ← pool.blocks[resets % pool.size]?
  block[taken % 6]?

theorem mod_block_lt (i : Nat) : i % 6 < 6 := Nat.mod_lt i (by decide)

/-- The byte with an index in the endless repetition of the current block. -/
def cycled (pool : BytePool) (i : Nat) : UInt8 :=
  have := mod_block_lt i
  pool.current[i % 6]

/-! ## Calls -/

@[simp] theorem sinceRewind_nil : sinceRewind [] = 0 := rfl

theorem sinceRewind_concat (calls : List Call) (call : Call) :
    sinceRewind (calls ++ [call]) =
      if call.rewinds then 0 else sinceRewind calls + call.taken := by
  unfold sinceRewind
  cases h : call.rewinds with
  | true =>
    rw [List.rtakeWhile_concat_neg _ _ _ (by simp [h])]
    rfl
  | false =>
    rw [List.rtakeWhile_concat_pos _ _ _ (by simp [h])]
    simp

@[simp] theorem after_nil (pool : BytePool) : pool.after [] = pool := rfl

@[simp] theorem after_cons (pool : BytePool) (call : Call) (calls : List Call) :
    pool.after (call :: calls) = (pool.serve call).2.after calls := rfl

theorem after_concat (pool : BytePool) (calls : List Call) (call : Call) :
    pool.after (calls ++ [call]) = ((pool.after calls).serve call).2 :=
  List.foldl_concat ..

@[simp] theorem stream_nil (pool : BytePool) : pool.stream [] = [] := rfl

theorem stream_concat (pool : BytePool) (calls : List Call) (call : Call) :
    pool.stream (calls ++ [call]) =
      pool.stream calls ++ if call.rewinds then [] else ((pool.after calls).serve call).1 := by
  induction calls generalizing pool with
  | nil => simp [stream]
  | cons first calls ih => simp [stream, ih]

/-- Filling gives as many bytes as that many single calls, and leaves the pool where they do. -/
theorem fill_eq_nexts (pool : BytePool) (count : Nat) :
    pool.stream (List.replicate count .next) = (pool.fill count).1 ∧
      pool.after (List.replicate count .next) = (pool.fill count).2 := by
  induction count generalizing pool with
  | zero => simp
  | succ count ih =>
    obtain ⟨hstream, hafter⟩ := ih pool.next.2
    rw [List.replicate_succ, fill_succ]
    exact ⟨congrArg (pool.next.1 :: ·) hstream, hafter⟩

/-! ## The current block -/

theorem cycled_mod (pool : BytePool) (i : Nat) : pool.cycled (i % 6) = pool.cycled i := by
  simp [cycled]

theorem next_eq_cycled (pool : BytePool) : pool.next.1 = pool.cycled pool.offset := by
  simp [next, cycled, Nat.mod_eq_of_lt pool.offset_lt]

theorem fill_eq_map_cycled (pool : BytePool) (count : Nat) :
    (pool.fill count).1 = (List.range count).map fun i => pool.cycled (pool.offset + i) := by
  rw [fill, List.range'_eq_map_range, List.map_map]
  rfl

/-- A byte is given again right after it was taken. -/
theorem last_serve (h : 0 < call.taken) :
    (pool.serve call).1.getLast? = some (pool.serve call).2.last.1 := by
  have hback : ∀ n,
      pool.cycled ((pool.offset + (n + 1)) % 6 + 5) = pool.cycled (pool.offset + n) := by
    intro n
    rw [← cycled_mod, ← cycled_mod _ (pool.offset + n)]
    congr 1
    omega
  cases call with
  | next =>
    show some pool.next.1 = some (pool.cycled ((pool.offset + 1) % 6 + 5))
    rw [hback 0, next_eq_cycled, Nat.add_zero]
  | last => exact absurd h (Nat.lt_irrefl 0)
  | reset => exact absurd h (Nat.lt_irrefl 0)
  | fill count =>
    obtain ⟨n, rfl⟩ := Nat.exists_eq_succ_of_ne_zero (Nat.ne_of_gt h)
    show (pool.fill (n + 1)).1.getLast? = some (pool.cycled ((pool.offset + (n + 1)) % 6 + 5))
    rw [hback, fill_eq_map_cycled, List.range_succ, List.map_append]
    exact List.getLast?_concat

/-! ## Places -/

/-- Where calls have left a pool that began at the start of its first block. -/
structure IsAt (start pool : BytePool) (resets taken : Nat) : Prop where
  blocks_eq : pool.blocks = start.blocks
  slot_eq : pool.slot = resets % start.size
  offset_eq : pool.offset = taken % 6

/-- What one call does to the place of a pool. -/
theorem IsAt.serve (h : IsAt start pool resets taken) (call : Call) :
    IsAt start (pool.serve call).2 (resets + [call].count .reset)
      (if call.rewinds then 0 else taken + call.taken) := by
  obtain ⟨hblocks, hslot, hoffset⟩ := h
  have hcarry : ∀ n, (pool.offset + n) % 6 = (taken + n) % 6 := by
    intro n
    rw [hoffset, Nat.mod_add_mod]
  cases call with
  | next => exact ⟨hblocks, hslot, hcarry 1⟩
  | last => exact ⟨hblocks, hslot, rfl⟩
  | reset =>
    refine ⟨hblocks, ?_, rfl⟩
    show (pool.slot + 1) % pool.blocks.size = (resets + 1) % start.size
    rw [hslot, hblocks, size, Nat.mod_add_mod]
  | fill count => exact ⟨hblocks, hslot, hcarry count⟩

theorem IsAt.after (hslot : start.slot = 0) (hoffset : start.offset = 0) (calls : List Call) :
    IsAt start (start.after calls) (calls.count .reset) (sinceRewind calls) := by
  induction calls using List.reverseRecOn with
  | nil => exact ⟨rfl, hslot.trans (Nat.zero_mod _).symm, hoffset⟩
  | append_singleton calls call ih =>
    rw [after_concat, sinceRewind_concat, List.count_append]
    exact ih.serve call

/-- The bytes from a place on. -/
theorem IsAt.byteAt?_eq (h : IsAt start pool resets taken) (i : Nat) :
    start.byteAt? resets (taken + i) = some (pool.cycled (pool.offset + i)) := by
  have hblock : start.blocks[resets % start.size]? = some pool.current := by
    rw [← h.slot_eq, ← h.blocks_eq]
    exact Array.getElem?_eq_getElem pool.slot_lt
  have hindex : (taken + i) % 6 = (pool.offset + i) % 6 := by
    rw [h.offset_eq, Nat.mod_add_mod]
  have hlt : (pool.offset + i) % 6 < 6 := Nat.mod_lt _ (by decide)
  simp only [byteAt?, hblock, hindex, Option.bind_eq_bind, Option.bind_some]
  exact Vector.getElem?_eq_getElem hlt

/-- The byte before a place is five further on. -/
theorem IsAt.byteAt?_last (h : IsAt start pool resets taken) :
    start.byteAt? resets (taken + 5) = some pool.last.1 := h.byteAt?_eq 5

/-! ## The stream -/

/-- A call that takes no byte and does not go back changes nothing. -/
theorem serve_idle (hrewinds : call.rewinds = false) (htaken : call.taken = 0) :
    pool.serve call = ([], pool) := by
  cases call with
  | next => cases htaken
  | last => cases hrewinds
  | reset => cases hrewinds
  | fill count =>
    obtain rfl : count = 0 := htaken
    exact pool.fill_zero

/-- As long as a byte was taken since the pool last went back, the byte before its place is the
latest one taken. -/
theorem getLast?_stream (h : 0 < sinceRewind calls) :
    (pool.stream calls).getLast? = some (pool.after calls).last.1 := by
  induction calls using List.reverseRecOn with
  | nil => exact absurd h (Nat.lt_irrefl 0)
  | append_singleton calls call ih =>
    rw [sinceRewind_concat] at h
    rw [stream_concat, after_concat]
    cases hrewinds : call.rewinds with
    | true =>
      rw [hrewinds] at h
      exact absurd h (Nat.lt_irrefl 0)
    | false =>
      rw [hrewinds] at h
      rcases Nat.eq_zero_or_pos call.taken with hidle | hpos
      · rw [serve_idle hrewinds hidle]
        simpa using ih (by simpa [hidle] using h)
      · rw [if_neg Bool.false_ne_true, List.getLast?_append, last_serve hpos]
        rfl

/-- The bytes of a pool, whatever was asked of it before. The next byte, and each one of a filling,
is the byte with its number since the pool last went back, in the block with the number of resets,
bytes and blocks being counted round and round; filling is taking single bytes. The byte before the
place is five further on, and right after bytes were taken it is the last of them. -/
theorem bytes_of_stream [Machine] {count : Nat} {s rest : Stream}
    (h : draw? count s = .ok (pool, rest)) (calls : List Call) :
    let now := pool.after calls
    let resets := calls.count .reset
    let taken := sinceRewind calls
    pool.size = count ∧
    pool.byteAt? resets taken = some now.next.1 ∧
    (∀ length, (now.fill length).1.map some =
      (List.range length).map fun i => pool.byteAt? resets (taken + i)) ∧
    (∀ length, now.fill length = (now.stream (List.replicate length .next),
      now.after (List.replicate length .next))) ∧
    pool.byteAt? resets (taken + 5) = some now.last.1 ∧
    ∀ call : Call, 0 < call.taken →
      (now.serve call).1.getLast? = some (now.serve call).2.last.1 := by
  intro now resets taken
  obtain ⟨hblocks, hslot, hoffset⟩ := of_draw? h
  have hsize : pool.size = count := by simp [size, hblocks]
  have hplace : IsAt pool now resets taken := IsAt.after hslot hoffset calls
  refine ⟨hsize, ?_, fun length => ?_, fun length => ?_, hplace.byteAt?_last,
    fun call => last_serve⟩
  · rw [next_eq_cycled]
    exact hplace.byteAt?_eq 0
  · rw [fill_eq_map_cycled, List.map_map]
    exact List.map_congr_left fun i _ => (hplace.byteAt?_eq i).symm
  · rw [(now.fill_eq_nexts length).1, (now.fill_eq_nexts length).2]

section

attribute [local instance] Machine.largest

/-- A pool of two blocks, moved on three times and then asked for eight bytes and two more. -/
theorem bytes_of_stream_two :
    let calls : List Call := [.next, .reset, .reset, .next, .last, .reset, .fill 8]
    ∃ pool rest, draw? 2 (.ofSeed 99) = .ok (pool, rest) ∧ calls.count .reset = 3 ∧
      sinceRewind calls = 8 ∧ (pool.after calls).next.1 = 105 ∧ pool.byteAt? 3 8 = some 105 ∧
      ((pool.after calls).serve (.fill 2)).1.getLast? =
        some ((pool.after calls).serve (.fill 2)).2.last.1 := by
  intro calls
  obtain ⟨⟨pool, rest⟩, hdraw, hbyte⟩ := exists_ok_of_any
    (by decide +kernel : (draw? 2 (.ofSeed 99)).toOption.any
      (fun drawn => (drawn.1.after calls).next.1 == 105) = true)
  have hresets : calls.count .reset = 3 := by decide
  have htaken : sinceRewind calls = 8 := by decide
  obtain ⟨-, hnext, -, -, -, hlast⟩ := bytes_of_stream hdraw calls
  rw [hresets, htaken, eq_of_beq hbyte] at hnext
  exact ⟨pool, rest, hdraw, hresets, htaken, eq_of_beq hbyte, hnext, hlast (.fill 2) (by decide)⟩

end

/-- The byte before a pool's place is the latest byte taken exactly if a byte was taken since the
pool last went back, or if the last byte of the current block happens to be the same: when none was
taken since, it is that byte. -/
theorem last_eq_latest_iff [Machine] {count : Nat} {s rest : Stream}
    (h : draw? count s = .ok (pool, rest))
    (calls : List Call) {latest : UInt8} (hlatest : (pool.stream calls).getLast? = some latest) :
    ((pool.after calls).last.1 = latest ↔
      0 < sinceRewind calls ∨ pool.byteAt? (calls.count .reset) 5 = some latest) ∧
    (sinceRewind calls = 0 →
      pool.byteAt? (calls.count .reset) 5 = some (pool.after calls).last.1) := by
  obtain ⟨-, hslot, hoffset⟩ := of_draw? h
  have hbyte : pool.byteAt? (calls.count .reset) (sinceRewind calls + 5) =
      some (pool.after calls).last.1 := (IsAt.after hslot hoffset calls).byteAt?_last
  rcases Nat.eq_zero_or_pos (sinceRewind calls) with hzero | hpos
  · rw [hzero, Nat.zero_add] at hbyte
    refine ⟨?_, fun _ => hbyte⟩
    rw [hbyte, hzero]
    simp
  · have hsame : latest = (pool.after calls).last.1 :=
      Option.some_inj.1 (hlatest.symm.trans (getLast?_stream hpos))
    exact ⟨iff_of_true hsame.symm (.inl hpos), fun hzero => absurd hzero (Nat.ne_of_gt hpos)⟩

section

attribute [local instance] Machine.largest

/-- Eight bytes taken after a reset: the last of them is the latest. -/
theorem last_eq_latest_fill :
    let calls : List Call := [.next, .reset, .fill 8]
    ∃ pool rest latest, draw? 2 (.ofSeed 99) = .ok (pool, rest) ∧
      (pool.stream calls).getLast? = some latest ∧ 0 < sinceRewind calls ∧
      (pool.after calls).last.1 = latest := by
  intro calls
  obtain ⟨⟨pool, rest⟩, hdraw, hbyte⟩ := exists_ok_of_any
    (by decide +kernel : (draw? 2 (.ofSeed 99)).toOption.any
      (fun drawn => (drawn.1.stream calls).getLast? == some 72) = true)
  have hpos : 0 < sinceRewind calls := by decide
  have hlatest : (pool.stream calls).getLast? = some 72 := eq_of_beq hbyte
  exact ⟨pool, rest, 72, hdraw, hlatest, hpos,
    (last_eq_latest_iff hdraw calls hlatest).1.2 (.inl hpos)⟩

/-- After one byte and a way back to the start of a block, be it the next one or the same, the byte
before the place is another than the one that was taken. -/
theorem last_ne_latest_after_rewind :
    ∃ pool rest, draw? 2 (.ofSeed 99) = .ok (pool, rest) ∧
      (pool.stream [.next, .last]).getLast? = some 46 ∧ (pool.after [.next, .last]).last.1 = 119 ∧
      (pool.stream [.next, .reset]).getLast? = some 46 ∧
      (pool.after [.next, .reset]).last.1 = 127 := by
  obtain ⟨⟨pool, rest⟩, hdraw, hbytes⟩ := exists_ok_of_any
    (by decide +kernel : (draw? 2 (.ofSeed 99)).toOption.any (fun drawn =>
      decide ((drawn.1.stream [.next, .last]).getLast? = some 46 ∧
        (drawn.1.after [.next, .last]).last.1 = 119 ∧
        (drawn.1.stream [.next, .reset]).getLast? = some 46 ∧
        (drawn.1.after [.next, .reset]).last.1 = 127)) = true)
  exact ⟨pool, rest, hdraw, of_decide_eq_true hbytes⟩

end

end StoreBench.Skew.BytePool
