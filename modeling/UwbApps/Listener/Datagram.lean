import UwbApps.Os.Mbuf

/-!
# Datagrams of the listener's UDP socket

With `ETH_0` the listener writes what arrives on its socket to the console, through a buffer of
`sizeofBuf` bytes on the stack.  `netTestReadable` keeps the calls it makes in order, each
`os_mbuf_copydata` with the number of bytes it stored.

Offset, chunk and advance agree: what is written is the datagram (`written_netTestReadable`).  The
copy is another matter.  It asks for `len` bytes, not for the chunk, so that the first call stores
the whole datagram.
-/

set_option autoImplicit false

open Octets UwbApps.Os

namespace UwbApps.Listener

variable {β : Type*}

/-- `sizeof(buf)`. -/
def sizeofBuf : ℕ := 32

/-- A call of the loop. -/
inductive NetCall where
  /-- `os_mbuf_copydata` into `buf`, and how many bytes it stored there. -/
  | copydata (stored : ℕ)
  | consoleWrite (bytes : List UInt8)
deriving DecidableEq

/-- What the console gets of a call. -/
def NetCall.written : NetCall → List UInt8
  | copydata _ => []
  | consoleWrite bytes => bytes

/-- The loop from `off` on.  Its test and its `len - off` are those of the source; `len` is no more
than an `int` holds. -/
def readableLoop (m : Mbuf β) (len : ℕ) (buf : Mem) (off : ℕ) : List NetCall :=
  if off < len then
    let toRead := if len - off < sizeofBuf then len - off else sizeofBuf
    let copied := (osMbufCopydata m off len buf).1
    .copydata (slice m.data off len).length :: .consoleWrite (fetch copied toRead) ::
      readableLoop m len copied (off + toRead)
  else []
termination_by len - off
decreasing_by
  have : 0 < sizeofBuf := by decide
  split <;> omega

/-- `net_test_readable`, with what `mn_recvfrom` left in `m` and what was on the stack in `buf`:
the blocks that are out afterwards, and the calls made. -/
def netTestReadable [DecidableEq β] (held : Finset β) (m : Option (Mbuf β)) (buf : Mem) :
    Finset β × List NetCall :=
  match m with
  | none => (held, [])
  | some m => (BlockPool.free held m.blocks, readableLoop m m.data.length buf 0)

/-- What the calls write to the console. -/
def written (calls : List NetCall) : List UInt8 := (calls.map NetCall.written).flatten

/-- The first bytes of the buffer after a copy are those of the chain. -/
theorem fetch_osMbufCopydata (m : Mbuf β) {off len n : ℕ} (hn : n ≤ len)
    (h : off + n ≤ m.data.length) (buf : Mem) :
    fetch (osMbufCopydata m off len buf).1 n = slice m.data off n := by
  have hlen : (slice m.data off n).length = n := by rw [length_slice]; omega
  refine List.ext_getElem (by rw [length_fetch, hlen]) fun k hk hk' ↦ ?_
  rw [length_fetch] at hk
  rw [← List.getD_eq_getElem _ 0, ← List.getD_eq_getElem _ 0, getD_fetch _ hk, getD_slice _ hk,
    osMbufCopydata_apply, if_pos (by omega)]

/-- **Each turn writes the next chunk**, and the turns together all that was left. -/
theorem written_readableLoop (m : Mbuf β) (buf : Mem) (off : ℕ) :
    written (readableLoop m m.data.length buf off) = m.data.drop off := by
  induction buf, off using readableLoop.induct m m.data.length with
  | case1 buf off h toRead copied ih =>
    have hread : toRead ≤ m.data.length - off := by
      dsimp only [toRead]
      split <;> omega
    have hchunk : fetch copied toRead = slice m.data off toRead :=
      fetch_osMbufCopydata m (by omega) (by omega) buf
    rw [readableLoop, if_pos h]
    calc written (_ :: _ :: readableLoop m m.data.length copied (off + toRead))
        = fetch copied toRead ++ written (readableLoop m m.data.length copied (off + toRead)) := rfl
      _ = (m.data.drop off).take toRead ++ (m.data.drop off).drop toRead := by
          rw [hchunk, ih, slice, List.drop_drop]
      _ = m.data.drop off := List.take_append_drop _ _
  | case2 buf off h =>
    rw [readableLoop, if_neg h, List.drop_of_length_le (by omega)]
    rfl

/-- No copy stores more than the datagram has. -/
theorem stored_le_of_mem {m : Mbuf β} {len : ℕ} (buf : Mem) (off : ℕ) {stored : ℕ}
    (h : .copydata stored ∈ readableLoop m len buf off) : stored ≤ m.data.length := by
  induction buf, off using readableLoop.induct m len with
  | case1 buf off hlt toRead copied ih =>
    rw [readableLoop, if_pos hlt] at h
    rcases List.mem_cons.mp h with hfirst | hlater
    · have := length_slice m.data off len
      simp only [NetCall.copydata.injEq] at hfirst
      omega
    · rcases List.mem_cons.mp hlater with hwrite | hrest
      · cases hwrite
      · exact ih hrest
  | case2 buf off hlt =>
    rw [readableLoop, if_neg hlt] at h
    exact absurd h List.not_mem_nil

/-- The first copy stores the whole datagram. -/
theorem copydata_length_mem {m : Mbuf β} (h : 0 < m.data.length) (buf : Mem) :
    .copydata m.data.length ∈ readableLoop m m.data.length buf 0 := by
  have hstored : (slice m.data 0 m.data.length).length = m.data.length := by
    rw [length_slice, Nat.sub_zero, Nat.min_self]
  rw [readableLoop, if_pos h, hstored]
  exact List.mem_cons_self

variable [DecidableEq β]

/-- The blocks of the datagram go back to the pool. -/
theorem owned_netTestReadable {held : Finset β} {m : Mbuf β} {bs : Multiset β}
    (h : BlockPool.Owned held (↑m.blocks + bs)) (buf : Mem) :
    BlockPool.Owned (netTestReadable held (some m) buf).1 bs :=
  h.free

theorem written_netTestReadable (held : Finset β) (m : Mbuf β) (buf : Mem) :
    written (netTestReadable held (some m) buf).2 = m.data :=
  written_readableLoop m buf 0

/-- **When a datagram passes safely.**  The loop ends and writes every datagram once and in order;
it stays inside `buf` exactly when the datagram fits there as a whole. -/
theorem netTestReadable_safe_iff (held : Finset β) (m : Mbuf β) (buf : Mem) :
    (written (netTestReadable held (some m) buf).2 = m.data ∧
        ∀ stored, .copydata stored ∈ (netTestReadable held (some m) buf).2 → stored ≤ sizeofBuf) ↔
      m.data.length ≤ sizeofBuf := by
  rw [and_iff_right (written_netTestReadable held m buf)]
  constructor
  · intro h
    rcases Nat.eq_zero_or_pos m.data.length with hzero | hpos
    · omega
    · exact h _ (copydata_length_mem hpos buf)
  · intro h stored hmem
    exact (stored_le_of_mem buf 0 hmem).trans h

/-- A datagram of 33 bytes: the first copy stores 33 bytes into the 32 of `buf`. -/
theorem netTestReadable_overrun :
    ¬ ∀ (m : Mbuf ℕ) (buf : Mem),
      written (netTestReadable {0} (some m) buf).2 = m.data ∧
        ∀ stored, .copydata stored ∈ (netTestReadable {0} (some m) buf).2 → stored ≤ sizeofBuf := by
  intro h
  have hcopy := copydata_length_mem (m := ⟨[0], List.replicate 33 0⟩) (by decide) fun _ ↦ 0
  exact absurd ((h ⟨[0], List.replicate 33 0⟩ fun _ ↦ 0).2 _ hcopy) (by decide)

end UwbApps.Listener
