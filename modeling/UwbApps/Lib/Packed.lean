import UwbApps.Lib.Octets
import Mathlib.Logic.Equiv.Defs
import Mathlib.Tactic.Ring

/-!
# Packed little-endian layouts

A `Packed α` says how a value of type `α` lies in memory with no padding: how many bytes it takes,
which bytes they are, and how the value is read back from a memory that holds them.  The two laws
that make this a layout are fields of the structure, so a layout that loses information, or that
looks past its own bytes, cannot be built.

* `Packed.uint w` is the unsigned word of `w` bytes, least significant byte first.
* `Packed.pair`, `Packed.array` and `Packed.iso` put layouts one behind the other, repeat one, and
  carry one along a bijection, which is what a C `struct` with the `packed` attribute needs.
* `Packed.Field` is a member of a layout: where it lies, and that reading it there is reading the
  whole value and projecting.
-/

set_option autoImplicit false

open Octets

/-- A layout of `α` in consecutive bytes. -/
structure Packed (α : Type*) where
  /-- How many bytes a value takes. -/
  size : ℕ
  /-- The bytes of a value. -/
  enc : α → List UInt8
  /-- The value at the start of a memory. -/
  dec : Mem → α
  length_enc : ∀ a, (enc a).length = size
  /-- A memory that holds the bytes of `a` is read as `a`. -/
  dec_of_agree : ∀ a m, Agree size m (load (enc a)) → dec m = a
  /-- Reading looks at no byte past `size`. -/
  dec_congr : ∀ m m', Agree size m m' → dec m = dec m'

namespace Packed

attribute [simp] length_enc

variable {α β : Type*}

/-! ## Words -/

/-- The `w` bytes of `n`, least significant first. -/
def leBytes : ℕ → ℕ → List UInt8
  | 0, _ => []
  | w + 1, n => UInt8.ofNat n :: leBytes w (n / 256)

/-- The number the first `w` bytes of a memory stand for, least significant first. -/
def leNat : ℕ → Mem → ℕ
  | 0, _ => 0
  | w + 1, m => (m 0).toNat + 256 * leNat w fun k ↦ m (k + 1)

theorem length_leBytes (w n : ℕ) : (leBytes w n).length = w := by
  induction w generalizing n with
  | zero => rfl
  | succ w ih => simp [leBytes, ih]

theorem leNat_congr {w : ℕ} {m m' : Mem} (h : Agree w m m') : leNat w m = leNat w m' := by
  induction w generalizing m m' with
  | zero => rfl
  | succ w ih =>
    have htail : leNat w (fun k ↦ m (k + 1)) = leNat w fun k ↦ m' (k + 1) :=
      ih fun k hk ↦ h (k + 1) (by omega)
    rw [leNat, leNat, h 0 (by omega), htail]

theorem leNat_leBytes (w n : ℕ) : leNat w (load (leBytes w n)) = n % 256 ^ w := by
  induction w generalizing n with
  | zero => simp [leNat, Nat.mod_one]
  | succ w ih =>
    have htail : (fun k ↦ load (leBytes (w + 1) n) (k + 1)) = load (leBytes w (n / 256)) := by
      funext k
      simp [load, leBytes]
    have hhead : (load (leBytes (w + 1) n) 0).toNat = n % 256 := by
      simp [load, leBytes]
    rw [leNat, htail, ih, hhead, pow_succ', Nat.mod_mul]

/-- The unsigned word of `w` bytes. -/
def uint (w : ℕ) : Packed (BitVec (8 * w)) where
  size := w
  enc v := leBytes w v.toNat
  dec m := BitVec.ofNat (8 * w) (leNat w m)
  length_enc v := length_leBytes w v.toNat
  dec_of_agree v m h := by
    have hlt : v.toNat < 256 ^ w := by
      have := v.isLt
      rwa [pow_mul] at this
    rw [leNat_congr h, leNat_leBytes, Nat.mod_eq_of_lt hlt, BitVec.ofNat_toNat, BitVec.setWidth_eq]
  dec_congr m m' h := by rw [leNat_congr h]

/-! ## Compound layouts -/

/-- One layout behind another. -/
def pair (c : Packed α) (d : Packed β) : Packed (α × β) where
  size := c.size + d.size
  enc p := c.enc p.1 ++ d.enc p.2
  dec m := (c.dec m, d.dec fun k ↦ m (c.size + k))
  length_enc p := by simp
  dec_of_agree p m h := by
    refine Prod.ext (c.dec_of_agree p.1 m fun k hk ↦ ?_) (d.dec_of_agree p.2 _ fun k hk ↦ ?_)
    · rw [h k (by omega), load_append_of_lt (by simpa using hk)]
    · have hk' := load_append_add (c.enc p.1) (d.enc p.2) k
      rw [c.length_enc] at hk'
      rw [h (c.size + k) (by omega), hk']
  dec_congr m m' h := by
    rw [c.dec_congr m m' (h.mono (by omega)), d.dec_congr _ _ h.shift]

/-- A layout carried along a bijection. -/
def iso (c : Packed α) (e : α ≃ β) : Packed β where
  size := c.size
  enc b := c.enc (e.symm b)
  dec m := e (c.dec m)
  length_enc b := c.length_enc _
  dec_of_agree b m h := by rw [c.dec_of_agree _ m h, e.apply_symm_apply]
  dec_congr m m' h := by rw [c.dec_congr m m' h]

@[simp] theorem size_pair (c : Packed α) (d : Packed β) : (pair c d).size = c.size + d.size := rfl

/-- The element of an array that starts `i` elements behind the start of the memory. -/
def elemAt (c : Packed α) (m : Mem) (i : ℕ) : α := c.dec fun k ↦ m (i * c.size + k)

/-- Element `i` of a list of encoded values is found `i` elements in. -/
theorem elemAt_flatMap_enc (c : Packed α) (l : List α) {m : Mem}
    (h : Agree (l.length * c.size) m (load (l.flatMap c.enc))) (i : Fin l.length) :
    elemAt c m i = l.get i := by
  induction l generalizing m with
  | nil => exact i.elim0
  | cons a l ih =>
    have hsize : (a :: l).length * c.size = c.size + l.length * c.size := by
      rw [List.length_cons, Nat.succ_mul, Nat.add_comm]
    rw [hsize] at h
    cases i using Fin.cases with
    | zero =>
      refine c.dec_of_agree a _ fun k hk ↦ ?_
      rw [Fin.val_zero, Nat.zero_mul, Nat.zero_add, h k (by omega), List.flatMap_cons,
        load_append_of_lt (by simpa using hk)]
    | succ i =>
      have htail : Agree (l.length * c.size) (fun k ↦ m (c.size + k)) (load (l.flatMap c.enc)) := by
        intro k hk
        have hk' := load_append_add (c.enc a) (l.flatMap c.enc) k
        rw [c.length_enc] at hk'
        show m (c.size + k) = _
        rw [h (c.size + k) (by omega), List.flatMap_cons, hk']
      rw [List.get_cons_succ', ← ih htail i, elemAt, elemAt]
      congr 1
      funext k
      congr 1
      rw [Fin.val_succ, Nat.succ_mul]
      omega

/-- The first bytes of a list of encoded values are those of its first values. -/
theorem take_flatMap_enc (c : Packed α) (l : List α) (k : ℕ) :
    (l.flatMap c.enc).take (k * c.size) = (l.take k).flatMap c.enc := by
  induction l generalizing k with
  | nil => simp
  | cons a l ih =>
    cases k with
    | zero => simp
    | succ k =>
      rw [List.flatMap_cons, Nat.succ_mul, Nat.add_comm, ← c.length_enc a,
        List.take_length_add_append, c.length_enc, ih, List.take_succ_cons, List.flatMap_cons]

/-- `n` values one behind the other. -/
def array (n : ℕ) (c : Packed α) : Packed (Vector α n) where
  size := n * c.size
  enc v := v.toList.flatMap c.enc
  dec m := Vector.ofFn fun i : Fin n ↦ elemAt c m i
  length_enc v := by simp
  dec_of_agree v m h := by
    ext i hi
    have hlen : v.toList.length = n := v.length_toList
    have helem := elemAt_flatMap_enc c v.toList (m := m) (by rwa [hlen]) ⟨i, by omega⟩
    simpa using helem
  dec_congr m m' h := by
    congr 1
    funext i
    refine c.dec_congr _ _ fun k hk ↦ h _ ?_
    calc i * c.size + k < i * c.size + c.size := by omega
      _ = (i + 1) * c.size := by ring
      _ ≤ n * c.size := Nat.mul_le_mul_right _ i.isLt

/-! ## Members -/

/-- A member of type `β` of the values of a layout. -/
structure Field (c : Packed α) (β : Type*) where
  off : ℕ
  layout : Packed β
  get : α → β
  /-- It lies inside the value. -/
  off_add_size_le : off + layout.size ≤ c.size
  /-- Reading it is reading the value and projecting. -/
  get_dec : ∀ m, get (c.dec m) = layout.dec fun k ↦ m (off + k)

namespace Field

variable {γ : Type*} {c : Packed α} {d : Packed β}

/-- The whole value. -/
def whole (c : Packed α) : Field c α where
  off := 0
  layout := c
  get := id
  off_add_size_le := by omega
  get_dec m := by simp

/-- A member of the first of two values. -/
def fst (f : Field c γ) : Field (pair c d) γ where
  off := f.off
  layout := f.layout
  get p := f.get p.1
  off_add_size_le := by
    have := f.off_add_size_le
    rw [size_pair]
    omega
  get_dec m := f.get_dec m

/-- A member of the second of two values. -/
def snd (f : Field d γ) : Field (pair c d) γ where
  off := c.size + f.off
  layout := f.layout
  get p := f.get p.2
  off_add_size_le := by
    have := f.off_add_size_le
    rw [size_pair]
    omega
  get_dec m := by
    have h := f.get_dec fun k ↦ m (c.size + k)
    simp only [← Nat.add_assoc] at h
    exact h

/-- A member of a value that a layout is carried along from. -/
def iso (f : Field c γ) (e : α ≃ β) : Field (Packed.iso c e) γ where
  off := f.off
  layout := f.layout
  get b := f.get (e.symm b)
  off_add_size_le := f.off_add_size_le
  get_dec m := (congrArg f.get (e.symm_apply_apply _)).trans (f.get_dec m)

/-- A member of the element `i` of an array. -/
def elem {n : ℕ} (f : Field c γ) (i : Fin n) : Field (array n c) γ where
  off := i * c.size + f.off
  layout := f.layout
  get v := f.get v[i]
  off_add_size_le := by
    have hle := f.off_add_size_le
    calc i * c.size + f.off + f.layout.size ≤ i * c.size + c.size := by omega
      _ = (i + 1) * c.size := by ring
      _ ≤ n * c.size := Nat.mul_le_mul_right _ i.isLt
  get_dec m := by
    have helem : ((array n c).dec m)[i] = elemAt c m i := by
      simp [array]
    rw [helem, elemAt, f.get_dec]
    simp only [Nat.add_assoc]

/-- A member is found in a memory that agrees with the value as far as the member reaches. -/
theorem get_of_agree (f : Field c γ) (a : α) {m : Mem}
    (h : Agree (f.off + f.layout.size) m (load (c.enc a))) : f.get (c.dec m) = f.get a := by
  rw [f.get_dec, f.layout.dec_congr _ _ h.shift, ← f.get_dec, c.dec_of_agree a _ fun _ _ ↦ rfl]

end Field

/-! ## Bit-fields -/

/-- A word cut into its `lo` low bits and its `hi` high bits. -/
def splitBits (hi lo : ℕ) : BitVec (hi + lo) ≃ BitVec lo × BitVec hi where
  toFun v := (v.setWidth lo, v.extractLsb' lo hi)
  invFun p := p.2 ++ p.1
  left_inv v := by
    refine BitVec.eq_of_getLsbD_eq fun i hi' ↦ ?_
    rw [BitVec.getLsbD_append, BitVec.getLsbD_setWidth, BitVec.getLsbD_extractLsb']
    rcases Nat.lt_or_ge i lo with hlo | hlo
    · simp [hlo]
    · simp [show ¬ i < lo by omega, show i - lo < hi by omega, show lo + (i - lo) = i by omega]
  right_inv _ := Prod.ext BitVec.setWidth_append_eq_right BitVec.extractLsb'_append_eq_left

end Packed
