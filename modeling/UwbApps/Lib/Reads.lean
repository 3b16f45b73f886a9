import UwbApps.Lib.Packed

/-!
# Computations that keep a record of what they read

A `Reads ι α` computes an `α` from a memory and lists its accesses: each has a name in `ι`, an
offset and a size.  That the result depends on nothing else is a field of the structure, so a
computation that looks where its record does not say cannot be built.

`Reads` is a monad whose one operation is `read`, which decodes a layout at an offset.
`accesses_bind` and `mem_accesses_concat` say what a compound computation reads.
-/

set_option autoImplicit false

open Octets

/-- One access to a memory. -/
structure Access (ι : Type*) where
  field : ι
  off : ℕ
  size : ℕ
deriving DecidableEq

namespace Access

variable {ι : Type*}

/-- The two memories hold the same bytes there. -/
def Agree (a : Access ι) (m m' : Mem) : Prop :=
  ∀ k, a.off ≤ k → k < a.off + a.size → m k = m' k

/-- It stays inside the first `len` bytes. -/
def Inside (len : ℕ) (a : Access ι) : Prop := a.off + a.size ≤ len

instance (len : ℕ) (a : Access ι) : Decidable (a.Inside len) :=
  inferInstanceAs (Decidable (_ ≤ _))

end Access

/-- A computation on a memory, with its accesses. -/
structure Reads (ι : Type*) (α : Type) where
  run : Mem → α × List (Access ι)
  /-- What it does not access makes no difference. -/
  run_congr : ∀ m m', (∀ a ∈ (run m).2, a.Agree m m') → run m' = run m

namespace Reads

variable {ι : Type*} {α β : Type}

def value (x : Reads ι α) (m : Mem) : α := (x.run m).1

def accesses (x : Reads ι α) (m : Mem) : List (Access ι) := (x.run m).2

/-- The member `field` of a layout, read where it lies from `off` on. -/
def read (field : ι) (off : ℕ) (c : Packed α) : Reads ι α where
  run m := (c.dec fun k ↦ m (off + k), [⟨field, off, c.size⟩])
  run_congr m m' h := by
    have hagree : Agree c.size (fun k ↦ m' (off + k)) fun k ↦ m (off + k) := fun k hk ↦
      (h _ List.mem_cons_self (off + k) (Nat.le_add_right off k) (Nat.add_lt_add_left hk off)).symm
    rw [c.dec_congr _ _ hagree]

/-- A member of the value a layout has at the start of the memory. -/
def member {γ : Type*} {c : Packed γ} (field : ι) (f : Packed.Field c α) : Reads ι α :=
  read field f.off f.layout

instance : Monad (Reads ι) where
  pure a := { run := fun _ ↦ (a, []), run_congr := fun _ _ _ ↦ rfl }
  bind x f :=
    { run := fun m ↦ (((f (x.run m).1).run m).1, (x.run m).2 ++ ((f (x.run m).1).run m).2)
      run_congr := by
        intro m m' h
        have hx := x.run_congr m m' fun a ha ↦ h a (List.mem_append_left _ ha)
        have hf := (f (x.run m).1).run_congr m m' fun a ha ↦ h a (List.mem_append_right _ ha)
        rw [hx, hf] }

/-- The texts of several computations, one behind the other. -/
def concat : List (Reads ι String) → Reads ι String
  | [] => pure ""
  | x :: xs => do
    let text ← x
    let rest ← concat xs
    pure (text ++ rest)

/-! ## What is read -/

@[simp] theorem accesses_pure (a : α) (m : Mem) : (pure a : Reads ι α).accesses m = [] := rfl

@[simp] theorem accesses_member {γ : Type*} {c : Packed γ} (field : ι) (f : Packed.Field c α)
    (m : Mem) : (member field f).accesses m = [⟨field, f.off, f.layout.size⟩] := rfl

@[simp] theorem accesses_bind (x : Reads ι α) (f : α → Reads ι β) (m : Mem) :
    (x >>= f).accesses m = x.accesses m ++ (f (x.value m)).accesses m := rfl

theorem accesses_ite {p : Prop} [Decidable p] (x y : Reads ι α) (m : Mem) :
    (if p then x else y).accesses m = if p then x.accesses m else y.accesses m :=
  apply_ite (fun z : Reads ι α ↦ z.accesses m) p x y

theorem mem_accesses_concat {xs : List (Reads ι String)} {m : Mem} {a : Access ι} :
    a ∈ (concat xs).accesses m ↔ ∃ x ∈ xs, a ∈ x.accesses m := by
  induction xs with
  | nil => simp [concat]
  | cons x xs ih => simp [concat, ih]

/-! ## What is computed -/

@[simp] theorem value_pure (a : α) (m : Mem) : (pure a : Reads ι α).value m = a := rfl

@[simp] theorem value_bind (x : Reads ι α) (f : α → Reads ι β) (m : Mem) :
    (x >>= f).value m = (f (x.value m)).value m := rfl

theorem toList_value_concat (xs : List (Reads ι String)) (m : Mem) :
    ((concat xs).value m).toList = (xs.map fun x ↦ (x.value m).toList).flatten := by
  induction xs with
  | nil => simp [concat]
  | cons x xs ih => simp [concat, ih]

/-- Each of the texts is in the whole. -/
theorem infix_value_concat {x : Reads ι String} {xs : List (Reads ι String)} (h : x ∈ xs)
    (m : Mem) : (x.value m).toList <:+: ((concat xs).value m).toList := by
  rw [toList_value_concat]
  exact List.infix_of_mem_flatten (List.mem_map_of_mem h)

end Reads
