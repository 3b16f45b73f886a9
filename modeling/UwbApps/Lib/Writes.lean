import UwbApps.Lib.Octets

/-!
# Sequences of writes into a growing string

A string that is written piece by piece, each piece at an offset of its own, the way a file or a
buffer chain is.  `writeAll` is the string after the writes, and `Fit` says that none of them
leaves a gap.  `getD_writeAll` is the frame rule: a byte that no write covers stays.
-/

set_option autoImplicit false

namespace Octets

/-- The bytes `bytes`, written from `off` on. -/
structure Write where
  off : ℕ
  bytes : List UInt8
deriving DecidableEq

/-- The write reaches byte `k`. -/
def Write.Covers (w : Write) (k : ℕ) : Prop := w.off ≤ k ∧ k < w.off + w.bytes.length

/-- No byte is reached by both. -/
def Write.Disjoint (v w : Write) : Prop := ∀ k, ¬ (v.Covers k ∧ w.Covers k)

/-- The string after the writes, first to last. -/
def writeAll (bs : List UInt8) (ws : List Write) : List UInt8 :=
  ws.foldl (fun bs w ↦ splice bs w.off w.bytes) bs

/-- Written into a string of `len` bytes, no write starts behind the end. -/
def Fit : ℕ → List Write → Prop
  | _, [] => True
  | len, w :: ws => w.off ≤ len ∧ Fit (max len (w.off + w.bytes.length)) ws

@[simp] theorem writeAll_nil (bs : List UInt8) : writeAll bs [] = bs := rfl

@[simp] theorem writeAll_cons (bs : List UInt8) (w : Write) (ws : List Write) :
    writeAll bs (w :: ws) = writeAll (splice bs w.off w.bytes) ws := rfl

theorem writeAll_append (bs : List UInt8) (vs ws : List Write) :
    writeAll bs (vs ++ ws) = writeAll (writeAll bs vs) ws :=
  List.foldl_append

/-- Writes of nothing change nothing. -/
theorem writeAll_of_forall_nil {bs : List UInt8} {ws : List Write}
    (h : ∀ w ∈ ws, w.bytes = []) : writeAll bs ws = bs := by
  induction ws with
  | nil => rfl
  | cons w ws ih =>
    rw [writeAll_cons, h w List.mem_cons_self, splice_nil]
    exact ih fun v hv ↦ h v (List.mem_cons_of_mem w hv)

/-- What is there stays, and more may come. -/
theorem length_le_writeAll {bs : List UInt8} {ws : List Write} (h : Fit bs.length ws) :
    bs.length ≤ (writeAll bs ws).length := by
  induction ws generalizing bs with
  | nil => exact le_refl _
  | cons w ws ih =>
    have hlen := length_splice h.1 w.bytes
    have hrest := ih (hlen ▸ h.2)
    rw [writeAll_cons]
    omega

/-- What the string starts with stays in front of writes behind it. -/
theorem prefix_writeAll {p bs : List UInt8} {ws : List Write} (hp : p <+: bs)
    (h : ∀ w ∈ ws, p.length ≤ w.off) : p <+: writeAll bs ws := by
  induction ws generalizing bs with
  | nil => exact hp
  | cons w ws ih =>
    rw [writeAll_cons]
    refine ih ?_ fun v hv ↦ h v (List.mem_cons_of_mem w hv)
    refine (List.prefix_take_iff.mpr ⟨hp, h w List.mem_cons_self⟩).trans ?_
    rw [splice, List.append_assoc]
    exact List.prefix_append _ _

/-- **The frame rule.**  A byte that no write covers stays as it is. -/
theorem getD_writeAll {bs : List UInt8} {ws : List Write} {k : ℕ} (hfit : Fit bs.length ws)
    (h : ∀ w ∈ ws, ¬ w.Covers k) : (writeAll bs ws).getD k 0 = bs.getD k 0 := by
  induction ws generalizing bs with
  | nil => rfl
  | cons w ws ih =>
    have hlen := length_splice hfit.1 w.bytes
    rw [writeAll_cons, ih (hlen ▸ hfit.2) fun v hv ↦ h v (List.mem_cons_of_mem w hv),
      getD_splice hfit.1]
    exact if_neg (h w List.mem_cons_self)

end Octets
