import Mathlib.Data.List.Basic
import Mathlib.Data.List.GetD
import Mathlib.Data.Nat.Notation
import Mathlib.Tactic.Linarith

/-!
# Octet strings and byte memories

Two views of the same bytes.  `List UInt8` is a string of known length: what a packet or a buffer
chain holds.  `Mem` is a memory addressed from the start of some object, total because a pointer
can be followed past the object's end.

* `splice bs off src` overwrites `bs` from `off` on with `src`, growing it when `src` reaches past
  the end, and `slice bs off len` reads back; `getD_splice` is the one fact everything else is
  proved from.
* `store m off bs` is the same write into a memory, with `store_of_lt`, `store_of_ge` and
  `store_of_mem` for the bytes below, above and inside the written window.
* `Agree n m m'` says that two memories hold the same first `n` bytes.
-/

set_option autoImplicit false

namespace Octets

/-- A byte memory, addressed from the start of the object it holds. -/
abbrev Mem := ℕ → UInt8

/-! ## Strings -/

/-- The memory that holds `bs`, and zeros behind it. -/
def load (bs : List UInt8) : Mem := fun k ↦ bs.getD k 0

/-- The first `len` bytes of a memory. -/
def fetch (m : Mem) (len : ℕ) : List UInt8 := (List.range len).map m

/-- At most `len` bytes of `bs` from `off` on: fewer when `bs` ends before. -/
def slice (bs : List UInt8) (off len : ℕ) : List UInt8 := (bs.drop off).take len

/-- `bs` with `src` written over it from `off` on. -/
def splice (bs : List UInt8) (off : ℕ) (src : List UInt8) : List UInt8 :=
  bs.take off ++ src ++ bs.drop (off + src.length)

@[simp] theorem length_fetch (m : Mem) (len : ℕ) : (fetch m len).length = len := by
  simp [fetch]

@[simp] theorem fetch_zero (m : Mem) : fetch m 0 = [] := rfl

theorem load_append_of_lt {bs cs : List UInt8} {k : ℕ} (h : k < bs.length) :
    load (bs ++ cs) k = load bs k :=
  List.getD_append bs cs 0 k h

theorem load_append_add (bs cs : List UInt8) (k : ℕ) :
    load (bs ++ cs) (bs.length + k) = load cs k := by
  rw [load, List.getD_append_right bs cs 0 _ (by omega), Nat.add_sub_cancel_left, load]

theorem getD_fetch (m : Mem) {len k : ℕ} (h : k < len) : (fetch m len).getD k 0 = m k := by
  simp [fetch, List.getD_eq_getElem?_getD, h]

/-- The first bytes of a string are fetched from the memory that holds it. -/
theorem fetch_load {bs : List UInt8} {len : ℕ} (h : len ≤ bs.length) :
    fetch (load bs) len = bs.take len := by
  refine List.ext_getElem (by simp [h]) fun i hi _ ↦ ?_
  rw [length_fetch] at hi
  simp [fetch, load, List.getD_eq_getElem?_getD, show i < bs.length by omega]

theorem fetch_congr {m m' : Mem} {len : ℕ} (h : ∀ k < len, m k = m' k) :
    fetch m len = fetch m' len :=
  List.map_congr_left fun k hk ↦ h k (List.mem_range.mp hk)

theorem length_slice (bs : List UInt8) (off len : ℕ) :
    (slice bs off len).length = min len (bs.length - off) := by
  simp [slice]

theorem getD_slice (bs : List UInt8) {off len k : ℕ} (h : k < len) :
    (slice bs off len).getD k 0 = bs.getD (off + k) 0 := by
  simp [slice, List.getD_eq_getElem?_getD, h]

theorem length_splice {bs : List UInt8} {off : ℕ} (h : off ≤ bs.length) (src : List UInt8) :
    (splice bs off src).length = max bs.length (off + src.length) := by
  simp only [splice, List.length_append, List.length_take, List.length_drop]
  omega

/-- **What a splice holds**: the source inside the window it covers, the old bytes outside. -/
theorem getD_splice {bs : List UInt8} {off : ℕ} (h : off ≤ bs.length) (src : List UInt8) (k : ℕ) :
    (splice bs off src).getD k 0 =
      if off ≤ k ∧ k < off + src.length then src.getD (k - off) 0 else bs.getD k 0 := by
  have htake : (bs.take off).length = off := by simp [h]
  rw [splice, List.append_assoc, List.getD_eq_getElem?_getD]
  rcases Nat.lt_or_ge k off with hlt | hge
  · rw [List.getElem?_append_left (by omega), List.getElem?_take_of_lt hlt, if_neg (by omega),
      List.getD_eq_getElem?_getD]
  · rw [List.getElem?_append_right (by omega), htake]
    rcases Nat.lt_or_ge k (off + src.length) with hin | hout
    · rw [List.getElem?_append_left (by omega), if_pos ⟨hge, hin⟩, List.getD_eq_getElem?_getD]
    · rw [List.getElem?_append_right (by omega), List.getElem?_drop, if_neg (by omega),
        List.getD_eq_getElem?_getD]
      congr 2
      omega

theorem splice_nil {bs : List UInt8} (off : ℕ) : splice bs off [] = bs := by
  simp [splice]

/-- Writing at the end appends. -/
theorem splice_length (bs src : List UInt8) : splice bs bs.length src = bs ++ src := by
  simp [splice]

/-! ## Memories -/

/-- `m` with the bytes `bs` stored from `off` on. -/
def store (m : Mem) (off : ℕ) (bs : List UInt8) : Mem :=
  fun k ↦ if off ≤ k ∧ k < off + bs.length then bs.getD (k - off) 0 else m k

theorem store_of_mem (m : Mem) {off k : ℕ} {bs : List UInt8} (h : off ≤ k)
    (h' : k < off + bs.length) : store m off bs k = bs.getD (k - off) 0 :=
  if_pos ⟨h, h'⟩

theorem store_of_lt (m : Mem) {off k : ℕ} (bs : List UInt8) (h : k < off) :
    store m off bs k = m k :=
  if_neg (by omega)

theorem store_of_ge (m : Mem) {off k : ℕ} {bs : List UInt8} (h : off + bs.length ≤ k) :
    store m off bs k = m k :=
  if_neg (by omega)

/-- The two memories hold the same first `n` bytes. -/
def Agree (n : ℕ) (m m' : Mem) : Prop := ∀ k < n, m k = m' k

theorem Agree.mono {n n' : ℕ} {m m' : Mem} (h : Agree n m m') (hn : n' ≤ n) : Agree n' m m' :=
  fun k hk ↦ h k (lt_of_lt_of_le hk hn)

/-- Moving both views up by `off` keeps the agreement of the bytes that are left. -/
theorem Agree.shift {n off : ℕ} {m m' : Mem} (h : Agree (off + n) m m') :
    Agree n (fun k ↦ m (off + k)) fun k ↦ m' (off + k) :=
  fun k hk ↦ h (off + k) (Nat.add_lt_add_left hk off)

end Octets
