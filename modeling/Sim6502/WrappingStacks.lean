import Mathlib.Data.Set.Card

/-!
# Stacks below a wrapping pointer

A stack kept in cells under a pointer of `w` bits that is decremented before a
push and incremented after a pop. As long as it holds at most `2 ^ w` items it
is a last-in first-out stack, wherever the pointer starts and also where it
wraps around. The cells are named by an injective function of the pointer.
-/
namespace WrappingStack

variable {w : ℕ} {κ α : Type}

/-! ## Items in cells -/

section Holds
variable (addr : BitVec w → κ)

/-- The cells from a pointer on hold the items, the most recent one first. -/
def Holds (cell : κ → α) : BitVec w → List α → Prop
  | _, [] => True
  | p, v :: items => cell (addr p) = v ∧ Holds cell (p + 1) items

instance decidableHolds [DecidableEq α] (cell : κ → α) :
    (p : BitVec w) → (items : List α) → Decidable (Holds addr cell p items)
  | _, [] => inferInstanceAs (Decidable True)
  | p, _ :: items =>
    have := decidableHolds cell (p + 1) items
    inferInstanceAs (Decidable (_ ∧ _))

/-- The cells that a stack of `n` items below a pointer occupies. -/
def Live (p : BitVec w) (n : ℕ) (k : κ) : Prop := ∃ i < n, k = addr (p + BitVec.ofNat w i)

variable {addr} {cell cell' : κ → α} {p : BitVec w} {items below : List α} {v : α}

private theorem ofNat_succ (i : ℕ) : BitVec.ofNat w (i + 1) = BitVec.ofNat w i + 1 :=
  BitVec.ofNat_add i 1

private theorem add_one_add (p : BitVec w) (i : ℕ) :
    p + 1 + BitVec.ofNat w i = p + BitVec.ofNat w (i + 1) := by
  rw [ofNat_succ, BitVec.add_assoc, BitVec.add_comm 1]

theorem Live.succ {n : ℕ} {k : κ} (h : Live addr (p + 1) n k) : Live addr p (n + 1) k := by
  obtain ⟨i, hi, rfl⟩ := h
  exact ⟨i + 1, Nat.succ_lt_succ hi, by rw [add_one_add]⟩

theorem live_head (p : BitVec w) (n : ℕ) : Live addr p (n + 1) (addr p) :=
  ⟨0, n.succ_pos, by simp⟩

/-- Items stay where they are under changes of other cells. -/
theorem Holds.congr (h : Holds addr cell p items)
    (heq : ∀ k, Live addr p items.length k → cell' k = cell k) : Holds addr cell' p items := by
  induction items generalizing p with
  | nil => trivial
  | cons v items ih =>
    obtain ⟨hv, hrest⟩ := h
    exact ⟨(heq _ (live_head p _)).trans hv, ih hrest fun k hk => heq k hk.succ⟩

theorem holds_append :
    Holds addr cell p (items ++ below) ↔
      Holds addr cell p items ∧ Holds addr cell (p + BitVec.ofNat w items.length) below := by
  induction items generalizing p with
  | nil => simp [Holds]
  | cons v items ih =>
    rw [List.cons_append, Holds, Holds, ih, List.length_cons, add_one_add, and_assoc]

theorem Holds.getElem (h : Holds addr cell p items) (i : ℕ) (hi : i < items.length) :
    cell (addr (p + BitVec.ofNat w i)) = items[i] := by
  induction items generalizing p i with
  | nil => exact absurd hi (Nat.not_lt_zero i)
  | cons v items ih =>
    obtain ⟨hv, hrest⟩ := h
    cases i with
    | zero =>
      rw [BitVec.add_zero]
      exact hv
    | succ i =>
      rw [← add_one_add]
      exact ih hrest i (Nat.lt_of_succ_lt_succ hi)

/-- The cell just below the pointer is free while the stack is not full. -/
theorem not_live_pred (haddr : Function.Injective addr) {n : ℕ} (hn : n < 2 ^ w) :
    ¬Live addr p n (addr (p - 1)) := by
  rintro ⟨i, hi, heq⟩
  have hp : p - 1 = p + BitVec.ofNat w i := haddr heq
  have hzero : BitVec.ofNat w (i + 1) = 0 := by
    have hone : p - 1 + 1 = p + BitVec.ofNat w (i + 1) := by
      rw [hp, BitVec.add_assoc, ofNat_succ]
    rw [BitVec.sub_add_cancel] at hone
    exact BitVec.add_right_eq_self.mp hone.symm
  have hmod := congrArg BitVec.toNat hzero
  rw [BitVec.toNat_ofNat, Nat.mod_eq_of_lt (by omega)] at hmod
  simp at hmod

/-- A push onto a stack that is not full. -/
theorem Holds.push [DecidableEq κ] (h : Holds addr cell p items)
    (haddr : Function.Injective addr) (hlen : items.length < 2 ^ w) (v : α) :
    Holds addr (Function.update cell (addr (p - 1)) v) (p - 1) (v :: items) := by
  refine ⟨Function.update_self _ _ _, ?_⟩
  rw [BitVec.sub_add_cancel]
  refine h.congr fun k hk => Function.update_of_ne ?_ _ _
  rintro rfl
  exact not_live_pred haddr hlen hk

end Holds

/-! ## The abstract stack -/

/-- A last-in first-out stack of at most `bound` items, the most recent one first. -/
structure BoundedStack (α : Type) (bound : ℕ) where
  items : List α
  length_le : items.length ≤ bound

inductive StackCall (α : Type) where
  | push (v : α)
  | pop

namespace BoundedStack
variable {bound : ℕ}

def empty : BoundedStack α bound := ⟨[], bound.zero_le⟩

/-- One call: what it delivers and the stack it leaves. A push needs room, a pop an
item. -/
def call (s : BoundedStack α bound) : StackCall α → Option (List α × BoundedStack α bound)
  | .push v => if h : s.items.length < bound then some ([], ⟨v :: s.items, h⟩) else none
  | .pop => match s with
    | ⟨[], _⟩ => none
    | ⟨v :: items, h⟩ => some ([v], ⟨items, Nat.le_of_succ_le h⟩)

/-- A sequence of calls: the values popped, the final stack and the greatest depth on
the way. -/
def calls : List (StackCall α) → BoundedStack α bound → Option (List α × BoundedStack α bound × ℕ)
  | [], s => some ([], s, s.items.length)
  | c :: cs, s => do
    let (out, t) ← s.call c
    let (outs, u, peak) ← calls cs t
    return (out ++ outs, u, max s.items.length peak)

end BoundedStack

/-! ## The cells as a machine -/

@[ext]
structure Machine (w : ℕ) (κ α : Type) where
  pointer : BitVec w
  cell : κ → α

namespace Machine
variable [DecidableEq κ] (addr : BitVec w → κ) (m : Machine w κ α)

def push (v : α) : Machine w κ α where
  pointer := m.pointer - 1
  cell := Function.update m.cell (addr (m.pointer - 1)) v

def top : α := m.cell (addr m.pointer)

def popped : Machine w κ α := { m with pointer := m.pointer + 1 }

def call : StackCall α → List α × Machine w κ α
  | .push v => ([], m.push addr v)
  | .pop => ([m.top addr], m.popped)

end Machine

/-! ## Refinement -/

/-- The `j`-th cell below a pointer, counted from zero. -/
def cellBelow (addr : BitVec w → κ) (p : BitVec w) (j : ℕ) : κ := addr (p - BitVec.ofNat w (j + 1))

/-- A machine that came from `start` represents a stack whose depth has reached `peak`. -/
structure Represents (addr : BitVec w → κ) (start m : Machine w κ α) (items : List α)
    (peak : ℕ) : Prop where
  pointer : m.pointer = start.pointer - BitVec.ofNat w items.length
  holds : Holds addr m.cell m.pointer items
  depth : items.length ≤ peak
  changed : ∀ k, m.cell k ≠ start.cell k → ∃ j < peak, k = cellBelow addr start.pointer j

section Represents
variable {addr : BitVec w → κ} {start m : Machine w κ α} {items : List α} {peak : ℕ}

theorem Represents.refl (start : Machine w κ α) : Represents addr start start [] 0 where
  pointer := by simp
  holds := trivial
  depth := le_rfl
  changed _ hk := absurd rfl hk

theorem Represents.mono {peak' : ℕ} (h : Represents addr start m items peak)
    (hle : peak ≤ peak') : Represents addr start m items peak' where
  pointer := h.pointer
  holds := h.holds
  depth := h.depth.trans hle
  changed k hk := by
    obtain ⟨j, hj, rfl⟩ := h.changed k hk
    exact ⟨j, hj.trans_le hle, rfl⟩

theorem Represents.pred_pointer (h : Represents addr start m items peak) :
    m.pointer - 1 = start.pointer - BitVec.ofNat w (items.length + 1) := by
  rw [h.pointer, BitVec.sub_sub, ofNat_succ]

theorem Represents.push [DecidableEq κ] (h : Represents addr start m items peak)
    (haddr : Function.Injective addr) (hlen : items.length < 2 ^ w) (v : α) :
    Represents addr start (m.push addr v) (v :: items) (max peak (items.length + 1)) where
  pointer := h.pred_pointer
  holds := h.holds.push haddr hlen v
  depth := le_max_right _ _
  changed k hk := by
    by_cases hne : k = addr (m.pointer - 1)
    · exact ⟨items.length, lt_max_of_lt_right items.length.lt_succ_self, by
        rw [hne, h.pred_pointer, cellBelow]⟩
    · simp only [Machine.push, Function.update_of_ne hne] at hk
      obtain ⟨j, hj, rfl⟩ := h.changed k hk
      exact ⟨j, lt_max_of_lt_left hj, rfl⟩

theorem Represents.top [DecidableEq κ] {v : α} (h : Represents addr start m (v :: items) peak) :
    m.top addr = v := h.holds.1

/-- The cell a pop reads is one the stack has reached. -/
theorem Represents.pointer_below {v : α} (h : Represents addr start m (v :: items) peak) :
    ∃ j < peak, addr m.pointer = cellBelow addr start.pointer j :=
  ⟨items.length, h.depth, by rw [h.pointer, cellBelow, List.length_cons]⟩

theorem Represents.pop [DecidableEq κ] {v : α} (h : Represents addr start m (v :: items) peak) :
    Represents addr start m.popped items peak where
  pointer := by
    rw [Machine.popped, h.pointer, List.length_cons, ofNat_succ, ← BitVec.sub_sub,
      BitVec.sub_add_cancel]
  holds := h.holds.2
  depth := Nat.le_of_succ_le h.depth
  changed := h.changed

/-- At most as many cells changed as the stack was ever deep. -/
theorem Represents.encard_changed (h : Represents addr start m items peak) :
    {k | m.cell k ≠ start.cell k}.encard ≤ peak := by
  have hsub : {k | m.cell k ≠ start.cell k} ⊆
      cellBelow addr start.pointer '' (Finset.range peak : Set ℕ) := by
    intro k hk
    obtain ⟨j, hj, rfl⟩ := h.changed k hk
    exact ⟨j, by simpa using hj, rfl⟩
  calc {k | m.cell k ≠ start.cell k}.encard
      ≤ (cellBelow addr start.pointer '' (Finset.range peak : Set ℕ)).encard :=
        Set.encard_le_encard hsub
    _ ≤ (Finset.range peak : Set ℕ).encard := Set.encard_image_le _ _
    _ = peak := by rw [Set.encard_coe_eq_coe_finsetCard, Finset.card_range]

/-- One call of the machine follows the call of the stack. -/
theorem Represents.call [DecidableEq κ] {bound : ℕ} {s t : BoundedStack α bound}
    {c : StackCall α} {out : List α} (h : Represents addr start m s.items peak)
    (haddr : Function.Injective addr) (hbound : bound ≤ 2 ^ w) (hc : s.call c = some (out, t)) :
    (m.call addr c).1 = out ∧
      Represents addr start (m.call addr c).2 t.items (max peak t.items.length) := by
  cases c with
  | push v =>
    by_cases hroom : s.items.length < bound
    · simp only [BoundedStack.call, dif_pos hroom, Option.some.injEq, Prod.mk.injEq] at hc
      obtain ⟨rfl, rfl⟩ := hc
      exact ⟨rfl, h.push haddr (hroom.trans_le hbound) v⟩
    · simp only [BoundedStack.call, dif_neg hroom, reduceCtorEq] at hc
  | pop =>
    obtain ⟨items, hitems⟩ := s
    cases items with
    | nil => simp only [BoundedStack.call, reduceCtorEq] at hc
    | cons v items =>
      simp only [BoundedStack.call, Option.some.injEq, Prod.mk.injEq] at hc
      obtain ⟨rfl, rfl⟩ := hc
      exact ⟨congrArg (fun v => [v]) h.top, h.pop.mono (le_max_left _ _)⟩

/-- The final depth and every depth on the way are counted in the peak. -/
theorem BoundedStack.length_le_peak {bound : ℕ} {cs : List (StackCall α)}
    {s u : BoundedStack α bound} {outs : List α} {peak : ℕ}
    (h : BoundedStack.calls cs s = some (outs, u, peak)) : s.items.length ≤ peak := by
  cases cs with
  | nil =>
    simp only [BoundedStack.calls, Option.some.injEq, Prod.mk.injEq] at h
    exact h.2.2.le
  | cons c cs =>
    simp only [BoundedStack.calls, Option.bind_eq_bind, Option.bind_eq_some_iff, Option.pure_def,
      Option.some.injEq, Prod.mk.injEq] at h
    obtain ⟨_, _, _, _, _, _, rfl⟩ := h
    exact le_max_left _ _

end Represents

end WrappingStack
