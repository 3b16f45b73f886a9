import UwbApps.Lib.BlockPool
import UwbApps.Lib.Octets

/-!
# Buffer chains

The packet buffers of the operating system, as its interface describes them.  A chain holds bytes
and the pool blocks they lie in; which blocks a call gets, and whether it gets enough of them, is
decided by the pool's environment and passed in.  How the bytes are spread over the segments of a
chain is not visible through the interface and not represented.
-/

set_option autoImplicit false

open Octets

namespace UwbApps.Os

variable {β : Type*} [DecidableEq β]

/-- A chain: the blocks it holds and the bytes in them. -/
structure Mbuf (β : Type*) where
  blocks : List β
  data : List UInt8
deriving DecidableEq

/-- What the pool gives a call that may extend a chain, and whether that was enough. -/
structure CopyOutcome (β : Type*) where
  blocks : List β
  ok : Bool
deriving DecidableEq

/-- `os_mbuf_get_pkthdr`: an empty chain of one block, or nothing when no block is given. -/
def osMbufGetPkthdr (held : Finset β) : Option β → Option (Finset β × Option (Mbuf β))
  | none => some (held, none)
  | some b => (BlockPool.take held b).map fun held' ↦ (held', some ⟨[b], []⟩)

/-- `os_mbuf_copyinto`: write `src` into the chain at `off`, extending it as needed.  A call that
fails keeps the blocks it got so far in the chain. -/
def osMbufCopyinto (held : Finset β) (om : Mbuf β) (off : ℕ) (src : List UInt8)
    (o : CopyOutcome β) : Option (Finset β × Mbuf β × Bool) :=
  if o.ok ∧ om.data.length < off then none
  else
    (BlockPool.takeAll held o.blocks).map fun held' ↦
      (held', ⟨om.blocks ++ o.blocks, if o.ok then splice om.data off src else om.data⟩, o.ok)

/-- `os_mbuf_append`: `src` behind the bytes of the chain.  A call that fails keeps the blocks it
got so far in the chain. -/
def osMbufAppend (held : Finset β) (om : Mbuf β) (src : List UInt8) (o : CopyOutcome β) :
    Option (Finset β × Mbuf β × Bool) :=
  (BlockPool.takeAll held o.blocks).map fun held' ↦
    (held', ⟨om.blocks ++ o.blocks, if o.ok then om.data ++ src else om.data⟩, o.ok)

/-- `os_mbuf_copydata` into a buffer: the bytes of the chain from `off` on, as far as it has them,
and whether that were `len`. -/
def osMbufCopydata (om : Mbuf β) (off len : ℕ) (buf : Mem) : Mem × Bool :=
  (store buf 0 (slice om.data off len), decide (off + len ≤ om.data.length))

omit [DecidableEq β] in
/-- What a copy leaves in the buffer: the chain's bytes, as far as they go, over the old ones. -/
theorem osMbufCopydata_apply (om : Mbuf β) (off len : ℕ) (buf : Mem) (k : ℕ) :
    (osMbufCopydata om off len buf).1 k =
      if k < len ∧ off + k < om.data.length then om.data.getD (off + k) 0 else buf k := by
  have hlen := length_slice om.data off len
  simp only [osMbufCopydata]
  split
  · next h => rw [store_of_mem _ (Nat.zero_le k) (by omega), Nat.sub_zero, getD_slice _ h.1]
  · next h => exact store_of_ge _ (by omega)

omit [DecidableEq β] in
/-- Two buffers agree behind a copy as far as they did before. -/
theorem osMbufCopydata_congr (om : Mbuf β) (off len : ℕ) {n : ℕ} {buf buf' : Mem}
    (h : Agree n buf buf') :
    Agree n (osMbufCopydata om off len buf).1 (osMbufCopydata om off len buf').1 := by
  intro k hk
  rw [osMbufCopydata_apply, osMbufCopydata_apply, h k hk]

omit [DecidableEq β] in
/-- They agree on what the chain has. -/
theorem agree_osMbufCopydata {om : Mbuf β} {off len n : ℕ} (hlen : n ≤ len)
    (h : off + n ≤ om.data.length) (buf buf' : Mem) :
    Agree n (osMbufCopydata om off len buf).1 (osMbufCopydata om off len buf').1 := by
  intro k hk
  rw [osMbufCopydata_apply, osMbufCopydata_apply, if_pos (by omega), if_pos (by omega)]

/-- What a header allocation leaves: nothing changed, or a chain of one new block. -/
theorem osMbufGetPkthdr_eq_some {held held' : Finset β} {hdr : Option β} {om : Option (Mbuf β)}
    (h : osMbufGetPkthdr held hdr = some (held', om)) :
    (hdr = none ∧ om = none ∧ held' = held) ∨
      ∃ b, hdr = some b ∧ om = some ⟨[b], []⟩ ∧ BlockPool.take held b = some held' := by
  cases hdr with
  | none =>
    cases h
    exact Or.inl ⟨rfl, rfl, rfl⟩
  | some b =>
    obtain ⟨held₁, hb, heq⟩ := Option.map_eq_some_iff.mp h
    cases heq
    exact Or.inr ⟨b, rfl, rfl, hb⟩

theorem osMbufCopyinto_eq_some {held held' : Finset β} {om om' : Mbuf β} {off : ℕ}
    {src : List UInt8} {o : CopyOutcome β} {ok : Bool}
    (h : osMbufCopyinto held om off src o = some (held', om', ok)) :
    ok = o.ok ∧ om'.blocks = om.blocks ++ o.blocks ∧
      BlockPool.takeAll held o.blocks = some held' ∧
      (ok = true → off ≤ om.data.length ∧ om'.data = splice om.data off src) := by
  rw [osMbufCopyinto] at h
  split at h
  · cases h
  · rename_i hoff
    obtain ⟨held₁, hb, heq⟩ := Option.map_eq_some_iff.mp h
    cases heq
    refine ⟨rfl, rfl, hb, fun hok ↦ ⟨?_, if_pos hok⟩⟩
    by_contra hlt
    exact hoff ⟨hok, by omega⟩

end UwbApps.Os
