import Mathlib.Data.Finset.Dedup
import Mathlib.Data.Finset.SDiff
import Mathlib.Data.Fintype.Card

/-!
# Pools of blocks and who owns them

A pool hands out blocks and takes them back; `held` is the set of blocks that are out.  The
question that matters of a pool is whether every block that is out is still in somebody's hands,
and in the hands of one party only: `Owned held bs` says that `bs`, counted with multiplicity, is
exactly what is out.

`Owned.take`, `Owned.takeAll` and `Owned.free` are what the two operations do to it.  Being an
equation of multisets it moves along any regrouping of the owners by `Multiset` arithmetic alone.
-/

set_option autoImplicit false

namespace BlockPool

variable {β : Type*} [DecidableEq β]

/-- Take the block `b` out of the pool, when it is in. -/
def take (held : Finset β) (b : β) : Option (Finset β) :=
  if b ∈ held then none else some (insert b held)

/-- Take the blocks `bs` out of the pool, one after the other. -/
def takeAll (held : Finset β) : List β → Option (Finset β)
  | [] => some held
  | b :: bs => (take held b).bind fun held' ↦ takeAll held' bs

/-- Put the blocks `bs` back. -/
def free (held : Finset β) (bs : List β) : Finset β := held \ bs.toFinset

/-- The blocks that are out are exactly `bs`, each of them once. -/
def Owned (held : Finset β) (bs : Multiset β) : Prop := held.val = bs

instance (held : Finset β) (bs : Multiset β) : Decidable (Owned held bs) :=
  inferInstanceAs (Decidable (held.val = bs))

omit [DecidableEq β] in
theorem owned_empty : Owned (∅ : Finset β) 0 := rfl

namespace Owned

variable {held held' : Finset β} {bs : Multiset β}

theorem take {b : β} (h : Owned held bs) (ht : BlockPool.take held b = some held') :
    Owned held' (b ::ₘ bs) := by
  rw [BlockPool.take] at ht
  split at ht
  · cases ht
  · rename_i hb
    cases ht
    rw [Owned, Finset.insert_val_of_notMem hb, h]

theorem takeAll {l : List β} (h : Owned held bs) (ht : BlockPool.takeAll held l = some held') :
    Owned held' (↑l + bs) := by
  induction l generalizing held bs with
  | nil =>
    cases ht
    simpa using h
  | cons b l ih =>
    rw [BlockPool.takeAll, Option.bind_eq_some_iff] at ht
    obtain ⟨held₁, hb, hl⟩ := ht
    have hrest := ih (h.take hb) hl
    rwa [Multiset.add_cons, ← Multiset.cons_add, Multiset.cons_coe] at hrest

/-- Freeing what one party owns leaves exactly what the others own. -/
theorem free {l : List β} (h : Owned held (↑l + bs)) : Owned (BlockPool.free held l) bs := by
  have hnd : (↑l + bs : Multiset β).Nodup := h ▸ held.nodup
  have hval : l.toFinset.val = ↑l := by
    rw [List.toFinset_val, (Multiset.coe_nodup.mp (Multiset.nodup_add.mp hnd).1).dedup]
  rw [Owned, BlockPool.free, Finset.sdiff_val, hval, h, Multiset.add_comm,
    Multiset.add_sub_cancel_right]

omit [DecidableEq β] in
theorem card (h : Owned held bs) : held.card = bs.card := by
  rw [Finset.card_def, h]

omit [DecidableEq β] in
theorem unique {bs' : Multiset β} (h : Owned held bs) (h' : Owned held bs') : bs = bs' :=
  h.symm.trans h'

end Owned

end BlockPool
