import Mathlib.Data.Nat.Notation
import Mathlib.Logic.Function.Basic

/-!
# Stores into a Byte Buffer

A buffer is a function from indices to bytes, and a program that fills it is the list of its
stores. That the list is kept, and not only the contents it leads to, says which bytes were
touched at all.

## Main results

* `holds_run_storesFrom`: consecutive stores leave their bytes.
* `HoldsString.unique`: a buffer starts with one string only.
* `Holds.run_of_le`: stores at later indices do not disturb what is held.
-/

namespace ByteStores

/-- A byte stored at an index. -/
structure Store where
  index : ℕ
  byte : UInt8
  deriving DecidableEq

/-- The buffer after some stores. -/
def run (mem : ℕ → UInt8) (stores : List Store) : ℕ → UInt8 :=
  stores.foldl (fun m s => Function.update m s.index s.byte) mem

/-- Consecutive stores from an index on. -/
def storesFrom (i : ℕ) : List UInt8 → List Store
  | [] => []
  | b :: bs => ⟨i, b⟩ :: storesFrom (i + 1) bs

/-- The bytes stand in the buffer from an index on. -/
def Holds (mem : ℕ → UInt8) (i : ℕ) : List UInt8 → Prop
  | [] => True
  | b :: bs => mem i = b ∧ Holds mem (i + 1) bs

/-- The buffer starts with a NUL-terminated string. -/
def HoldsString (mem : ℕ → UInt8) (s : List UInt8) : Prop := Holds mem 0 (s ++ [0]) ∧ 0 ∉ s

@[simp]
theorem run_nil (mem : ℕ → UInt8) : run mem [] = mem := rfl

theorem run_cons (mem : ℕ → UInt8) (s : Store) (stores : List Store) :
    run mem (s :: stores) = run (Function.update mem s.index s.byte) stores := rfl

/-- Stores are made one after the other. -/
theorem run_append (mem : ℕ → UInt8) (s t : List Store) :
    run mem (s ++ t) = run (run mem s) t :=
  List.foldl_append

/-- An index that is not stored at keeps its byte. -/
theorem run_of_forall_ne {stores : List Store} {j : ℕ} (h : ∀ s ∈ stores, s.index ≠ j)
    (mem : ℕ → UInt8) : run mem stores j = mem j := by
  induction stores generalizing mem with
  | nil => rfl
  | cons s stores ih =>
      obtain ⟨hs, hstores⟩ := List.forall_mem_cons.mp h
      rw [run_cons, ih hstores, Function.update_of_ne hs.symm]

/-- Where consecutive stores go. -/
theorem index_of_mem_storesFrom {i : ℕ} {bs : List UInt8} {s : Store}
    (h : s ∈ storesFrom i bs) : i ≤ s.index ∧ s.index < i + bs.length := by
  induction bs generalizing i with
  | nil => exact absurd h List.not_mem_nil
  | cons b bs ih =>
      rw [List.length_cons]
      rcases List.mem_cons.mp h with rfl | h
      · exact ⟨Nat.le_refl i, Nat.lt_add_of_pos_right (Nat.succ_pos _)⟩
      · have := ih h
        omega

/-- A range is held when both its parts are. -/
theorem holds_append {mem : ℕ → UInt8} {i : ℕ} {bs cs : List UInt8} :
    Holds mem i (bs ++ cs) ↔ Holds mem i bs ∧ Holds mem (i + bs.length) cs := by
  induction bs generalizing i with
  | nil => exact iff_of_eq (true_and _).symm
  | cons b bs ih =>
      rw [List.cons_append, Holds, Holds, ih, List.length_cons, and_assoc, Nat.add_right_comm,
        Nat.add_assoc]

/-- What is held depends on the bytes at its indices only. -/
theorem Holds.congr {mem mem' : ℕ → UInt8} {i : ℕ} {bs : List UInt8} (h : Holds mem i bs)
    (heq : ∀ j, j < i + bs.length → mem' j = mem j) : Holds mem' i bs := by
  induction bs generalizing i with
  | nil => trivial
  | cons b bs ih =>
      rw [List.length_cons] at heq
      exact ⟨(heq i (by omega)).trans h.1, ih h.2 fun j hj => heq j (by omega)⟩

/-- What is held depends on no byte outside its own indices. -/
theorem Holds.frame {mem mem' : ℕ → UInt8} {i : ℕ} {bs : List UInt8} (h : Holds mem i bs)
    (heq : ∀ j, i ≤ j → j < i + bs.length → mem' j = mem j) : Holds mem' i bs := by
  induction bs generalizing i with
  | nil => trivial
  | cons b bs ih =>
      rw [List.length_cons] at heq
      exact ⟨(heq i (Nat.le_refl i) (by omega)).trans h.1,
        ih h.2 fun j hlo hhi => heq j (by omega) (by omega)⟩

/-- Stores at later indices do not disturb what is held. -/
theorem Holds.run_of_le {mem : ℕ → UInt8} {i : ℕ} {bs : List UInt8} (h : Holds mem i bs)
    {stores : List Store} (hle : ∀ s ∈ stores, i + bs.length ≤ s.index) :
    Holds (run mem stores) i bs :=
  h.congr fun j hj => run_of_forall_ne (fun s hs => by have := hle s hs; omega) mem

/-- Consecutive stores leave their bytes. -/
theorem holds_run_storesFrom (mem : ℕ → UInt8) (i : ℕ) (bs : List UInt8) :
    Holds (run mem (storesFrom i bs)) i bs := by
  induction bs generalizing mem i with
  | nil => trivial
  | cons b bs ih =>
      refine ⟨?_, ih _ _⟩
      rw [storesFrom, run_cons, run_of_forall_ne, Function.update_self]
      intro s hs
      have := index_of_mem_storesFrom hs
      omega

/-- A buffer starts with one string only. -/
theorem HoldsString.unique {mem : ℕ → UInt8} {s t : List UInt8} (hs : HoldsString mem s)
    (ht : HoldsString mem t) : s = t := by
  have hholds : ∀ i (s t : List UInt8), Holds mem i (s ++ [0]) → Holds mem i (t ++ [0]) →
      0 ∉ s → 0 ∉ t → s = t := by
    intro i s
    induction s generalizing i with
    | nil =>
        intro t hs ht _ hzero
        cases t with
        | nil => rfl
        | cons c t => exact absurd (List.mem_cons.mpr (.inl (hs.1.symm.trans ht.1))) hzero
    | cons b s ih =>
        intro t hs ht hzero hzero'
        cases t with
        | nil => exact absurd (List.mem_cons.mpr (.inl (ht.1.symm.trans hs.1))) hzero
        | cons c t =>
            rw [ih (i + 1) t hs.2 ht.2 (List.not_mem_of_not_mem_cons hzero)
              (List.not_mem_of_not_mem_cons hzero'), hs.1.symm.trans ht.1]
  exact hholds 0 s t hs.1 ht.1 hs.2 ht.2

end ByteStores
