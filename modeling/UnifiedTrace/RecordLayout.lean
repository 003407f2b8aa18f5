import Mathlib.Algebra.Group.Nat.Defs
import Mathlib.Data.List.Perm.Basic
import Mathlib.Order.MinMax
import UnifiedTrace.ByteStores

/-!
# Records in Memory

How a C compiler places the members of a struct, and what a program reads back after it has
assigned them one by one. The members stand in the order of their declaration, each at the
first offset that its alignment allows; a number is stored with its low byte first.

## Main results

* `numberOf_bytesOf`: a number is read back modulo its width.
* `pairwise_spansFrom`, `span_le_sizeof`: the members of a struct do not overlap and lie
  inside it.
* `Fills.load`: members that are assigned once each, in any order and over any old contents,
  are read back as what was assigned.
-/

namespace RecordLayout

open ByteStores

/-! ### Numbers -/

/-- The bytes of a number, low byte first. -/
def bytesOf : ℕ → ℕ → List UInt8
  | 0, _ => []
  | width + 1, n => UInt8.ofNat n :: bytesOf width (n / 256)

/-- The number that bytes stand for, low byte first. -/
def numberOf : List UInt8 → ℕ
  | [] => 0
  | b :: bs => b.toNat + 256 * numberOf bs

/-- A number takes as many bytes as its width says. -/
@[simp]
theorem length_bytesOf (width n : ℕ) : (bytesOf width n).length = width := by
  induction width generalizing n with
  | zero => rfl
  | succ width ih => rw [bytesOf, List.length_cons, ih]

/-- **Numbers**: what is read back is the number modulo the width. -/
theorem numberOf_bytesOf (width n : ℕ) : numberOf (bytesOf width n) = n % 256 ^ width := by
  induction width generalizing n with
  | zero => rw [bytesOf, numberOf, Nat.pow_zero, Nat.mod_one]
  | succ width ih =>
      have hlow : (UInt8.ofNat n).toNat = n % 256 := UInt8.toNat_ofNat'
      rw [bytesOf, numberOf, ih, hlow, Nat.pow_succ', Nat.mod_mul]

/-! ### Reading -/

/-- Consecutive bytes of the buffer. -/
def read (mem : ℕ → UInt8) (i : ℕ) : ℕ → List UInt8
  | 0 => []
  | n + 1 => mem i :: read mem (i + 1) n

/-- A range has as many bytes as asked for. -/
@[simp]
theorem length_read (mem : ℕ → UInt8) (i n : ℕ) : (read mem i n).length = n := by
  induction n generalizing i with
  | zero => rfl
  | succ n ih => rw [read, List.length_cons, ih]

/-- What the buffer holds is what is read. -/
theorem read_of_holds {mem : ℕ → UInt8} {i : ℕ} {bs : List UInt8} (h : Holds mem i bs) :
    read mem i bs.length = bs := by
  induction bs generalizing i with
  | nil => rfl
  | cons b bs ih => rw [List.length_cons, read, h.1, ih h.2]

/-- A read depends on the bytes at its indices only. -/
theorem read_congr {mem mem' : ℕ → UInt8} {i j n : ℕ}
    (h : ∀ k, k < n → mem' (j + k) = mem (i + k)) : read mem' j n = read mem i n := by
  induction n generalizing i j with
  | zero => rfl
  | succ n ih =>
      have hhead : mem' j = mem i := h 0 (Nat.succ_pos n)
      have htail : read mem' (j + 1) n = read mem (i + 1) n := by
        refine ih fun k hk => ?_
        rw [Nat.add_right_comm j, Nat.add_right_comm i]
        exact h (k + 1) (Nat.succ_lt_succ hk)
      rw [read, read, hhead, htail]

/-- A range is read in two parts. -/
theorem read_add (mem : ℕ → UInt8) (i n k : ℕ) :
    read mem i (n + k) = read mem i n ++ read mem (i + n) k := by
  induction n generalizing i with
  | zero => rw [Nat.zero_add, read, List.nil_append, Nat.add_zero]
  | succ n ih =>
      rw [Nat.add_right_comm, read, ih, read, List.cons_append, Nat.add_assoc i 1,
        Nat.add_comm 1]

/-- Stores over the front of a range leave the rest of it. -/
theorem read_run_storesFrom (mem : ℕ → UInt8) (i : ℕ) {n : ℕ} {bs : List UInt8}
    (h : bs.length ≤ n) :
    read (run mem (storesFrom i bs)) i n = bs ++ (read mem i n).drop bs.length := by
  obtain ⟨k, rfl⟩ := Nat.exists_eq_add_of_le h
  have hrest : read (run mem (storesFrom i bs)) (i + bs.length) k =
      read mem (i + bs.length) k := by
    refine read_congr fun o _ => run_of_forall_ne (fun s hs => ?_) mem
    have := index_of_mem_storesFrom hs
    omega
  have hlen : (read mem i bs.length).length = bs.length := length_read mem i bs.length
  rw [read_add, read_add, read_of_holds (holds_run_storesFrom mem i bs), hrest,
    List.drop_append_of_le_length hlen.ge, List.drop_of_length_le hlen.le, List.nil_append]

/-- A buffer that holds what was read elsewhere agrees with it byte by byte. -/
theorem eq_of_holds_read {mem mem' : ℕ → UInt8} {i j n : ℕ} (h : Holds mem' j (read mem i n)) :
    ∀ k, k < n → mem' (j + k) = mem (i + k) := by
  induction n generalizing i j with
  | zero => exact fun k hk => absurd hk (Nat.not_lt_zero k)
  | succ n ih =>
      intro k hk
      cases k with
      | zero => exact h.1
      | succ k =>
          have hrest := ih h.2 k (Nat.lt_of_succ_lt_succ hk)
          rwa [Nat.add_right_comm j, Nat.add_right_comm i] at hrest

/-- The buffer that starts with the bytes. -/
def ofList (bs : List UInt8) (i : ℕ) : UInt8 := bs[i]?.getD 0

/-- A list laid out from address zero is held where its suffix starts. -/
theorem holds_ofList (pre bs : List UInt8) : Holds (ofList (pre ++ bs)) pre.length bs := by
  induction bs generalizing pre with
  | nil => trivial
  | cons b bs ih =>
      refine ⟨?_, ?_⟩
      · rw [ofList, List.getElem?_append_right (Nat.le_refl _), Nat.sub_self]
        rfl
      · have hrest := ih (pre ++ [b])
        rwa [List.append_assoc, List.length_append] at hrest

/-- The bytes are read back from the buffer. -/
theorem read_ofList (bs : List UInt8) : read (ofList bs) 0 bs.length = bs :=
  read_of_holds (holds_ofList [] bs)

/-- A range of a buffer, kept as a list and read again. -/
theorem ofList_read {mem : ℕ → UInt8} {n k : ℕ} (hk : k < n) :
    ofList (read mem 0 n) k = mem k := by
  have hholds : Holds (ofList (read mem 0 n)) 0 (read mem 0 n) := holds_ofList [] _
  have heq := eq_of_holds_read hholds k hk
  rwa [Nat.zero_add] at heq

/-- A type of the language: the bytes that a value takes, and the value that bytes have. -/
structure CType (α : Type*) where
  size : ℕ
  value : List UInt8 → α

/-- The value at an index. -/
def CType.load {α : Type*} (c : CType α) (mem : ℕ → UInt8) (i : ℕ) : α :=
  c.value (read mem i c.size)

/-- A scalar is loaded from the bytes that its place holds. -/
theorem CType.load_of_holds {α : Type*} (c : CType α) {mem : ℕ → UInt8} {i : ℕ}
    {bs : List UInt8} (hsize : bs.length = c.size) (h : Holds mem i bs) :
    c.load mem i = c.value bs := by
  rw [load, ← hsize, read_of_holds h]

/-- A value depends on its own bytes only. -/
theorem CType.load_congr {α : Type*} (c : CType α) {mem mem' : ℕ → UInt8} {i j : ℕ}
    (h : ∀ k, k < c.size → mem' (j + k) = mem (i + k)) : c.load mem' j = c.load mem i := by
  rw [load, read_congr h, load]

/-- Stores outside of a value do not change it. -/
theorem CType.load_run_of_outside {α : Type*} (c : CType α) {stores : List Store} {i : ℕ}
    (h : ∀ s ∈ stores, s.index < i ∨ i + c.size ≤ s.index) (mem : ℕ → UInt8) :
    c.load (run mem stores) i = c.load mem i :=
  c.load_congr fun k hk => run_of_forall_ne (fun s hs => by have := h s hs; omega) mem

/-- `unsigned long long` on a 64-bit machine. -/
def uint64 : CType UInt64 := ⟨8, fun bs => UInt64.ofNat (numberOf bs)⟩

/-- `unsigned int`. -/
def uint32 : CType UInt32 := ⟨4, fun bs => UInt32.ofNat (numberOf bs)⟩

/-- `int`. -/
def int32 : CType Int32 := ⟨4, fun bs => (UInt32.ofNat (numberOf bs)).toInt32⟩

/-- `unsigned char`. -/
def uint8 : CType UInt8 := ⟨1, fun bs => UInt8.ofNat (numberOf bs)⟩

/-- `char[n]`. -/
def chars (n : ℕ) : CType (List UInt8) := ⟨n, id⟩

/-- The bytes of a `__u64` give it back. -/
@[simp]
theorem uint64_value (x : UInt64) : uint64.value (bytesOf 8 x.toNat) = x := by
  have hmod : x.toNat % 256 ^ 8 = x.toNat := Nat.mod_eq_of_lt x.toNat_lt
  dsimp only [uint64]
  rw [numberOf_bytesOf, hmod, UInt64.ofNat_toNat]

/-- The bytes of a `__u32` give it back. -/
@[simp]
theorem uint32_value (x : UInt32) : uint32.value (bytesOf 4 x.toNat) = x := by
  have hmod : x.toNat % 256 ^ 4 = x.toNat := Nat.mod_eq_of_lt x.toNat_lt
  dsimp only [uint32]
  rw [numberOf_bytesOf, hmod, UInt32.ofNat_toNat]

/-- The bytes of a `__s32` give it back. -/
@[simp]
theorem int32_value (x : Int32) : int32.value (bytesOf 4 x.toUInt32.toNat) = x := by
  have hmod : x.toUInt32.toNat % 256 ^ 4 = x.toUInt32.toNat :=
    Nat.mod_eq_of_lt x.toUInt32.toNat_lt
  dsimp only [int32]
  rw [numberOf_bytesOf, hmod, UInt32.ofNat_toNat, Int32.toInt32_toUInt32]

/-- The byte of a `__u8` gives it back. -/
@[simp]
theorem uint8_value (x : UInt8) : uint8.value (bytesOf 1 x.toNat) = x := by
  have hmod : x.toNat % 256 ^ 1 = x.toNat := Nat.mod_eq_of_lt x.toNat_lt
  dsimp only [uint8]
  rw [numberOf_bytesOf, hmod, UInt8.ofNat_toNat]

/-! ### Structs -/

/-- A member of a struct. -/
structure Member where
  size : ℕ
  align : ℕ
  align_pos : 0 < align

/-- The place of a member. -/
structure Span where
  offset : ℕ
  size : ℕ
  deriving DecidableEq

/-- The first multiple of the alignment that is not below the offset. -/
def alignUp (offset align : ℕ) : ℕ := (offset + (align - 1)) / align * align

/-- Rounding up does not go down. -/
theorem le_alignUp (offset : ℕ) {align : ℕ} (h : 0 < align) : offset ≤ alignUp offset align := by
  have hdiv := Nat.div_add_mod (offset + (align - 1)) align
  have hmod := Nat.mod_lt (offset + (align - 1)) h
  rw [alignUp, Nat.mul_comm]
  omega

/-- The places of members that are laid out from an offset on. -/
def spansFrom (offset : ℕ) : List Member → List Span
  | [] => []
  | m :: members =>
      ⟨alignUp offset m.align, m.size⟩ :: spansFrom (alignUp offset m.align + m.size) members

/-- The end of the last member. -/
def endFrom (offset : ℕ) : List Member → ℕ
  | [] => offset
  | m :: members => endFrom (alignUp offset m.align + m.size) members

/-- The largest alignment of the members. -/
def alignment (members : List Member) : ℕ := members.foldr (fun m align => max m.align align) 1

/-- A record is aligned to at least one byte. -/
theorem alignment_pos (members : List Member) : 0 < alignment members := by
  cases members with
  | nil => exact Nat.one_pos
  | cons m members => exact lt_of_lt_of_le m.align_pos (le_max_left _ _)

/-- The places of the members of a struct. -/
def spans (members : List Member) : List Span := spansFrom 0 members

/-- The size of a struct, which is padded to a multiple of its alignment. -/
def sizeof (members : List Member) : ℕ := alignUp (endFrom 0 members) (alignment members)

/-- A struct as a member of another. -/
def Member.struct (members : List Member) : Member :=
  ⟨sizeof members, alignment members, alignment_pos members⟩

/-- A union of two members. -/
def Member.union (m m' : Member) : Member where
  size := alignUp (max m.size m'.size) (max m.align m'.align)
  align := max m.align m'.align
  align_pos := lt_of_lt_of_le m.align_pos (le_max_left _ _)

/-- The two places have no byte in common. -/
def Span.Apart (s t : Span) : Prop := s.offset + s.size ≤ t.offset ∨ t.offset + t.size ≤ s.offset

/-- The members come after the offset they start from. -/
theorem le_endFrom (offset : ℕ) (members : List Member) : offset ≤ endFrom offset members := by
  induction members generalizing offset with
  | nil => exact Nat.le_refl offset
  | cons m members ih =>
      exact (le_alignUp offset m.align_pos).trans ((Nat.le_add_right _ _).trans (ih _))

/-- The members lie between where they start and where they end. -/
theorem bounds_of_mem_spansFrom {offset : ℕ} {members : List Member} {s : Span}
    (h : s ∈ spansFrom offset members) :
    offset ≤ s.offset ∧ s.offset + s.size ≤ endFrom offset members := by
  induction members generalizing offset with
  | nil => exact absurd h List.not_mem_nil
  | cons m members ih =>
      have hle := le_alignUp offset m.align_pos
      rcases List.mem_cons.mp h with rfl | h
      · exact ⟨hle, le_endFrom _ members⟩
      · obtain ⟨hlower, hupper⟩ := ih h
        exact ⟨hle.trans ((Nat.le_add_right _ _).trans hlower), hupper⟩

/-- **No overlap** between the members of a struct. -/
theorem pairwise_spansFrom (offset : ℕ) (members : List Member) :
    (spansFrom offset members).Pairwise Span.Apart := by
  induction members generalizing offset with
  | nil => exact List.Pairwise.nil
  | cons m members ih =>
      exact List.Pairwise.cons (fun s hs => .inl (bounds_of_mem_spansFrom hs).1) (ih _)

/-- The members lie inside the struct. -/
theorem span_le_sizeof {members : List Member} {s : Span} (h : s ∈ spans members) :
    s.offset + s.size ≤ sizeof members :=
  (bounds_of_mem_spansFrom h).2.trans (le_alignUp _ (alignment_pos members))

/-! ### Assignments -/

/-- The assignment of bytes to the place that starts at an offset. -/
structure Assign where
  offset : ℕ
  bytes : List UInt8

/-- The place that is assigned. -/
def Assign.span (w : Assign) : Span := ⟨w.offset, w.bytes.length⟩

/-- The stores of assignments to the members of the record at an address. -/
def storesOf (base : ℕ) (assigns : List Assign) : List Store :=
  assigns.flatMap fun w => storesFrom (base + w.offset) w.bytes

/-- An index that no assignment reaches keeps its byte. -/
theorem run_storesOf_of_outside {base : ℕ} {assigns : List Assign} {j : ℕ}
    (h : ∀ w ∈ assigns, j < base + w.offset ∨ base + w.offset + w.bytes.length ≤ j)
    (mem : ℕ → UInt8) : run mem (storesOf base assigns) j = mem j := by
  refine run_of_forall_ne (fun s hs => ?_) mem
  obtain ⟨w, hw, hs⟩ := List.mem_flatMap.mp hs
  have hbounds := index_of_mem_storesFrom hs
  have := h w hw
  omega

/-- Assignments to places that do not overlap do not disturb each other. -/
theorem holds_of_apart {base : ℕ} {assigns : List Assign}
    (hapart : assigns.Pairwise fun v w => v.span.Apart w.span) {w : Assign} (hw : w ∈ assigns)
    (mem : ℕ → UInt8) :
    Holds (run mem (storesOf base assigns)) (base + w.offset) w.bytes := by
  induction assigns generalizing mem with
  | nil => exact absurd hw List.not_mem_nil
  | cons v assigns ih =>
      rw [storesOf, List.flatMap_cons, run_append]
      obtain ⟨hv, hrest⟩ := List.pairwise_cons.mp hapart
      rcases List.mem_cons.mp hw with rfl | hw
      · refine (holds_run_storesFrom mem _ _).frame fun j hlo hhi => ?_
        refine run_storesOf_of_outside (fun u hu => ?_) _
        have := hv u hu
        simp only [Span.Apart, Assign.span] at this
        omega
      · exact ih hrest hw _

/-- The assignments give every member of a struct a value of its size, in some order. -/
def Fills (assigns : List Assign) (members : List Member) : Prop :=
  (assigns.map Assign.span).Perm (spans members)

/-- **Assigning a struct**: whatever the order and the old contents, every member holds what
was assigned to it. -/
theorem Fills.holds {assigns : List Assign} {members : List Member}
    (h : Fills assigns members) {w : Assign} (hw : w ∈ assigns) (mem : ℕ → UInt8) (base : ℕ) :
    Holds (run mem (storesOf base assigns)) (base + w.offset) w.bytes := by
  refine holds_of_apart ?_ hw mem
  have hspans : (assigns.map Assign.span).Pairwise Span.Apart :=
    (h.pairwise_iff fun hst => hst.symm).mpr (pairwise_spansFrom 0 members)
  exact List.pairwise_map.mp hspans

/-- The stores go to the struct and to nothing else. -/
theorem Fills.index_bounds {assigns : List Assign} {members : List Member}
    (h : Fills assigns members) {base : ℕ} {s : Store} (hs : s ∈ storesOf base assigns) :
    base ≤ s.index ∧ s.index < base + sizeof members := by
  obtain ⟨w, hw, hs⟩ := List.mem_flatMap.mp hs
  have hbounds := index_of_mem_storesFrom hs
  have hle := span_le_sizeof (h.mem_iff.mp (List.mem_map_of_mem hw))
  dsimp only [Assign.span] at hle
  omega

/-- A member is loaded as the value of the bytes that were assigned to it. -/
theorem Fills.load {α : Type*} {assigns : List Assign} {members : List Member}
    (h : Fills assigns members) (c : CType α) {w : Assign} (hw : w ∈ assigns)
    (hsize : w.bytes.length = c.size) (mem : ℕ → UInt8) (base : ℕ) :
    c.load (run mem (storesOf base assigns)) (base + w.offset) = c.value w.bytes :=
  c.load_of_holds hsize (h.holds hw mem base)

section Scalars

variable {assigns : List Assign} {members : List Member} (h : Fills assigns members)
  (mem : ℕ → UInt8) (base i : ℕ) {offset : ℕ}

include h

/-- A `__u64` member that was assigned is loaded back. -/
theorem Fills.load_uint64 {x : UInt64} (hw : assigns[i]? = some ⟨offset, bytesOf 8 x.toNat⟩) :
    uint64.load (run mem (storesOf base assigns)) (base + offset) = x :=
  (h.load uint64 (List.mem_of_getElem? hw) (length_bytesOf 8 _) mem base).trans (uint64_value x)

/-- A `__u32` member that was assigned is loaded back. -/
theorem Fills.load_uint32 {x : UInt32} (hw : assigns[i]? = some ⟨offset, bytesOf 4 x.toNat⟩) :
    uint32.load (run mem (storesOf base assigns)) (base + offset) = x :=
  (h.load uint32 (List.mem_of_getElem? hw) (length_bytesOf 4 _) mem base).trans (uint32_value x)

/-- A `__s32` member that was assigned is loaded back. -/
theorem Fills.load_int32 {x : Int32}
    (hw : assigns[i]? = some ⟨offset, bytesOf 4 x.toUInt32.toNat⟩) :
    int32.load (run mem (storesOf base assigns)) (base + offset) = x :=
  (h.load int32 (List.mem_of_getElem? hw) (length_bytesOf 4 _) mem base).trans (int32_value x)

/-- A `__u8` member that was assigned is loaded back. -/
theorem Fills.load_uint8 {x : UInt8} (hw : assigns[i]? = some ⟨offset, bytesOf 1 x.toNat⟩) :
    uint8.load (run mem (storesOf base assigns)) (base + offset) = x :=
  (h.load uint8 (List.mem_of_getElem? hw) (length_bytesOf 1 _) mem base).trans (uint8_value x)

end Scalars

end RecordLayout
