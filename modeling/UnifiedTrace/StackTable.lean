import Mathlib.Data.Finset.Card
import Mathlib.Data.Finset.Option
import Mathlib.Data.List.TakeWhile
import UnifiedTrace.BoundedMap
import UnifiedTrace.StackJson

/-!
# The Table of Stack Traces

`bpf_get_stackid` on the map `stack_traces` of `include/maps.h`, as the kernel documents it. A
stack selects a bucket by its hash. An empty bucket takes the stack, unless all preallocated
elements are in use. An occupied bucket is reused if the hashes agree and, without
`BPF_F_FAST_STACK_CMP`, the contents too; otherwise the call fails, as neither program passes
`BPF_F_REUSE_STACKID`. So a bucket never changes once it is filled.

The hash function and the choice of the bucket are a parameter, `StackHash`; `StackHash.jhash`
is what the kernel uses.

## Main results

* `lookup_fill`: what a bucket holds after any sequence of captures.
* `retrieve_of_prefix`: what `read_stack_addrs` returns, at any later time, for the id that a
  capture got.
-/

namespace UnifiedTrace

/-! ### Stacks and their hashes -/

/-- A user stack as the kernel walks it, innermost address first: not empty and no longer than
a value of the map. -/
structure UserTrace where
  addrs : List UInt64
  ne_nil : addrs ≠ []
  length_le : addrs.length ≤ perfMaxStackDepth
  deriving DecidableEq

/-- How the kernel finds the bucket of a stack. A bucket number is not negative as an `int`. -/
structure StackHash where
  hash : List UInt64 → UInt32
  bucket : UInt32 → UInt32
  bucket_lt : ∀ h, bucket h < 0x80000000

/-- `rol32`. -/
def rol32 (x k : UInt32) : UInt32 := x <<< k ||| x >>> (32 - k)

/-- `__jhash_mix`. -/
def jhashMix (a b c : UInt32) : UInt32 × UInt32 × UInt32 :=
  let (a, c) := ((a - c) ^^^ rol32 c 4, c + b)
  let (b, a) := ((b - a) ^^^ rol32 a 6, a + c)
  let (c, b) := ((c - b) ^^^ rol32 b 8, b + a)
  let (a, c) := ((a - c) ^^^ rol32 c 16, c + b)
  let (b, a) := ((b - a) ^^^ rol32 a 19, a + c)
  let (c, b) := ((c - b) ^^^ rol32 b 4, b + a)
  (a, b, c)

/-- `__jhash_final`: the last of its three words. -/
def jhashFinal (a b c : UInt32) : UInt32 :=
  let c := (c ^^^ b) - rol32 b 14
  let a := (a ^^^ c) - rol32 c 11
  let b := (b ^^^ a) - rol32 a 25
  let c := (c ^^^ b) - rol32 b 16
  let a := (a ^^^ c) - rol32 c 4
  let b := (b ^^^ a) - rol32 a 14
  (c ^^^ b) - rol32 b 24

/-- The loop of `jhash2` and the words that remain after it. -/
def jhashLoop (a b c : UInt32) : List UInt32 → UInt32
  | [] => c
  | [k₀] => jhashFinal (a + k₀) b c
  | [k₀, k₁] => jhashFinal (a + k₀) (b + k₁) c
  | [k₀, k₁, k₂] => jhashFinal (a + k₀) (b + k₁) (c + k₂)
  | k₀ :: k₁ :: k₂ :: ks =>
      let (a, b, c) := jhashMix (a + k₀) (b + k₁) (c + k₂)
      jhashLoop a b c ks

/-- `jhash2`. -/
def jhash2 (ks : List UInt32) (initval : UInt32) : UInt32 :=
  let init := (0xdeadbeef : UInt32) + (UInt32.ofNat ks.length <<< (2 : UInt32)) + initval
  jhashLoop init init init ks

/-- The kernel's choice of a bucket: it has as many as the power of two above `max_entries`. -/
def jhashBucket (h : UInt32) : UInt32 := h &&& 16383

/-- A bucket number of the real hash is not negative as an `int`. -/
theorem jhashBucket_lt (h : UInt32) : jhashBucket h < 0x80000000 := by
  rw [UInt32.lt_iff_toNat_lt, jhashBucket, UInt32.toNat_and]
  exact Nat.and_le_right.trans_lt (by decide)

/-- What the kernel does: `jhash2` over the two halves of each address. -/
def StackHash.jhash : StackHash where
  hash := fun addrs =>
    jhash2 (addrs.flatMap fun a : UInt64 => [a.toUInt32, (a >>> 32).toUInt32]) 0
  bucket := jhashBucket
  bucket_lt := jhashBucket_lt

/-! ### The table -/

/-- `max_entries` of `stack_traces`. -/
def stackTracesMaxEntries : ℕ := 10000

/-- The buckets in use, each with the stack that filled it. -/
abbrev StackMap := BoundedMap UInt32 UserTrace stackTracesMaxEntries

/-- A call to `bpf_get_stackid` with `BPF_F_USER_STACK`. -/
structure Capture where
  /-- Whether `BPF_F_FAST_STACK_CMP` is given. -/
  fast : Bool
  /-- The user stack of the current thread, if it can be walked. -/
  walk : Option UserTrace
  deriving DecidableEq

variable (H : StackHash)

/-- The bucket of a stack. -/
def StackHash.bucketOf (trace : UserTrace) : UInt32 := H.bucket (H.hash trace.addrs)

/-- The bucket of a capture, if there is a stack. -/
def Capture.bucket? (c : Capture) : Option UInt32 := c.walk.map H.bucketOf

/-- A capture of `trace` reuses a bucket that holds `stored`. -/
def Accepts (fast : Bool) (trace stored : UserTrace) : Prop :=
  H.hash stored.addrs = H.hash trace.addrs ∧ (fast = true ∨ stored = trace)

instance (fast : Bool) (trace stored : UserTrace) : Decidable (Accepts H fast trace stored) :=
  inferInstanceAs (Decidable (_ ∧ _))

/-- `bpf_get_stackid`: the map afterwards and the result, with `-EFAULT`, `-EEXIST` and
`-ENOMEM` for the three failures. -/
def getStackid (m : StackMap) (c : Capture) : StackMap × Int32 :=
  match c.walk with
  | none => (m, -14)
  | some trace =>
      match m.lookup (H.bucketOf trace) with
      | some stored =>
          (m, if Accepts H c.fast trace stored then (H.bucketOf trace).toInt32 else -17)
      | none =>
          match m.update (H.bucketOf trace) trace with
          | some m' => (m', (H.bucketOf trace).toInt32)
          | none => (m, -12)

/-- The map after a sequence of captures. -/
def fill (m : StackMap) (cs : List Capture) : StackMap :=
  cs.foldl (fun m c => (getStackid H m c).1) m

/-- What `bpf_map_lookup_elem` copies out of a bucket: the stack, padded with zeros. -/
def StackMap.contents (m : StackMap) (id : UInt32) :
    Option (Fin perfMaxStackDepth → UInt64) :=
  (m.lookup id).map fun trace j => trace.addrs.getD j 0

/-- What `read_stack_addrs` returns for an id when the map is `m`. -/
def retrieve (m : StackMap) (stackId : Int32) : List UInt64 :=
  readStackAddrs { StackEnv.noStacks with stackMap := some m.contents } stackId
    perfMaxStackDepth

/-- The addresses that can be read back from a bucket with this stack. -/
def UserTrace.shown (trace : UserTrace) : List UInt64 := trace.addrs.takeWhile (· ≠ 0)

/-- The first stack among the captures that belongs into the bucket. -/
def firstTrace (id : UInt32) (cs : List Capture) : Option UserTrace :=
  (cs.find? fun c => c.bucket? H = some id).bind Capture.walk

/-- The captures before that one. -/
def earlier (id : UInt32) (cs : List Capture) : List Capture :=
  cs.takeWhile fun c => c.bucket? H ≠ some id

/-- The buckets in use at the start, and those of the captures. -/
def usedBuckets (m : StackMap) (cs : List Capture) : Finset UInt32 :=
  m.keys.toFinset ∪ (cs.filterMap fun c => c.bucket? H).toFinset

/-- The stack that the result of a capture names, if it does not fail. -/
def Capture.named (m : StackMap) (c : Capture) : Option UserTrace :=
  c.walk.bind fun trace =>
    ((getStackid H m c).1.lookup (H.bucketOf trace)).filter fun stored =>
      Accepts H c.fast trace stored

variable {H} {m : StackMap}

/-! ### One capture -/

/-- A trace is accepted by itself, also under a fast comparison. -/
theorem accepts_self (fast : Bool) (trace : UserTrace) : Accepts H fast trace trace :=
  ⟨rfl, .inr rfl⟩

/-- **What a capture does**: nothing without a stack or on an occupied bucket; an empty bucket
is filled while there is room. -/
theorem getStackid_cases (m : StackMap) (c : Capture) :
    (c.walk = none ∧ getStackid H m c = (m, -14)) ∨
    ∃ trace, c.walk = some trace ∧
      ((∃ stored, m.lookup (H.bucketOf trace) = some stored ∧ getStackid H m c =
          (m, if Accepts H c.fast trace stored then (H.bucketOf trace).toInt32 else -17)) ∨
        (m.lookup (H.bucketOf trace) = none ∧ m.size < stackTracesMaxEntries ∧
          ∃ m', m.update (H.bucketOf trace) trace = some m' ∧
            getStackid H m c = (m', (H.bucketOf trace).toInt32)) ∨
        (m.lookup (H.bucketOf trace) = none ∧ stackTracesMaxEntries ≤ m.size ∧
          getStackid H m c = (m, -12))) := by
  rw [getStackid]
  cases hwalk : c.walk with
  | none => exact .inl ⟨rfl, rfl⟩
  | some trace =>
      dsimp only
      refine .inr ⟨trace, rfl, ?_⟩
      cases hl : m.lookup (H.bucketOf trace) with
      | some stored => exact .inl ⟨stored, rfl, rfl⟩
      | none =>
          cases hu : m.update (H.bucketOf trace) trace with
          | none => exact .inr (.inr ⟨rfl, (BoundedMap.update_eq_none_iff.mp hu).2, rfl⟩)
          | some m' =>
              refine .inr (.inl ⟨rfl, ?_, m', rfl, rfl⟩)
              by_contra hfull
              have hnone := (BoundedMap.update_eq_none_iff (v := trace)).mpr
                ⟨BoundedMap.lookup_eq_none.mp hl, Nat.not_lt.mp hfull⟩
              exact absurd (hnone.symm.trans hu) (by simp)

/-- A capture that walks a stack goes to the bucket of its trace. -/
theorem bucket?_eq_some {c : Capture} {trace : UserTrace} (h : c.walk = some trace) :
    c.bucket? H = some (H.bucketOf trace) := by
  rw [Capture.bucket?, h]
  rfl

/-- A capture fills an empty bucket while there is room and changes nothing else. -/
theorem lookup_getStackid (m : StackMap) (c : Capture) (id : UInt32) :
    (getStackid H m c).1.lookup id =
      (m.lookup id).or
        (if c.bucket? H = some id ∧ m.size < stackTracesMaxEntries then c.walk else none) := by
  rcases getStackid_cases (H := H) m c with ⟨hwalk, heq⟩ | ⟨trace, hwalk, ⟨stored, hl, heq⟩ |
    ⟨hl, hroom, m', hu, heq⟩ | ⟨hl, hfull, heq⟩⟩
  · rw [heq, hwalk, ite_self, Option.or_none]
  · have hb := bucket?_eq_some (H := H) hwalk
    rw [heq]
    rcases eq_or_ne (H.bucketOf trace) id with rfl | hne
    · rw [hl, Option.some_or]
    · rw [if_neg (c := c.bucket? H = some id ∧ _) fun h =>
        hne (Option.some.inj (hb.symm.trans h.1)), Option.or_none]
  · have hb := bucket?_eq_some (H := H) hwalk
    rw [heq]
    rcases eq_or_ne (H.bucketOf trace) id with rfl | hne
    · rw [BoundedMap.lookup_update hu, hl, if_pos ⟨hb, hroom⟩, Option.none_or, hwalk]
    · rw [BoundedMap.lookup_update_ne hu hne.symm,
        if_neg fun h => hne (Option.some.inj (hb.symm.trans h.1)), Option.or_none]
  · rw [heq, if_neg fun h => absurd h.2 (Nat.not_lt.mpr hfull), Option.or_none]

/-- The keys of the map after a capture. -/
theorem keys_getStackid (m : StackMap) (c : Capture) :
    (∃ id, c.bucket? H = some id ∧ id ∉ m.keys ∧ m.size < stackTracesMaxEntries ∧
      (getStackid H m c).1.keys = id :: m.keys) ∨
    ((∀ id, c.bucket? H = some id → id ∉ m.keys → stackTracesMaxEntries ≤ m.size) ∧
      (getStackid H m c).1 = m) := by
  rcases getStackid_cases (H := H) m c with ⟨hwalk, heq⟩ | ⟨trace, hwalk, ⟨stored, hl, heq⟩ |
    ⟨hl, hroom, m', hu, heq⟩ | ⟨hl, hfull, heq⟩⟩
  · refine .inr ⟨fun id hid => ?_, by rw [heq]⟩
    rw [Capture.bucket?, hwalk] at hid
    exact absurd hid (by simp)
  · refine .inr ⟨fun id hid habs => ?_, by rw [heq]⟩
    obtain rfl := Option.some.inj ((bucket?_eq_some hwalk).symm.trans hid)
    exact absurd (hl.symm.trans (BoundedMap.lookup_eq_none.mpr habs)) (by simp)
  · have habs := BoundedMap.lookup_eq_none.mp hl
    refine .inl ⟨H.bucketOf trace, bucket?_eq_some hwalk, habs, hroom, ?_⟩
    rw [heq, BoundedMap.keys_update hu, List.erase_of_not_mem habs]
  · exact .inr ⟨fun _ _ _ => hfull, by rw [heq]⟩

/-- **What the result names**: the stack in its bucket after the capture, provided the capture
accepts it; a capture that is refused has a negative result. -/
theorem getStackid_snd (m : StackMap) (c : Capture) :
    (c.named H m = none ∧ (getStackid H m c).2 < 0) ∨
      ∃ trace, c.walk = some trace ∧ (c.named H m).isSome ∧
        c.named H m = (getStackid H m c).1.lookup (H.bucketOf trace) ∧
        (getStackid H m c).2 = (H.bucketOf trace).toInt32 := by
  rw [Capture.named]
  rcases getStackid_cases (H := H) m c with ⟨hwalk, heq⟩ | ⟨trace, hwalk, ⟨stored, hl, heq⟩ |
    ⟨hl, hroom, m', hu, heq⟩ | ⟨hl, hfull, heq⟩⟩
  · rw [heq, hwalk]
    exact .inl ⟨rfl, show (-14 : Int32) < 0 by decide⟩
  · rw [heq, hwalk, Option.bind_some, hl]
    by_cases hacc : Accepts H c.fast trace stored
    · exact .inr ⟨trace, rfl, by simp [hacc], by simp [hacc, hl], if_pos hacc⟩
    · rw [if_neg hacc]
      exact .inl ⟨by simp [hacc], show (-17 : Int32) < 0 by decide⟩
  · rw [heq, hwalk, Option.bind_some, BoundedMap.lookup_update hu]
    have hacc := accepts_self (H := H) c.fast trace
    refine .inr ⟨trace, rfl, by simp [hacc], by simp [hacc, BoundedMap.lookup_update hu], rfl⟩
  · rw [heq, hwalk, Option.bind_some, hl]
    exact .inl ⟨rfl, show (-12 : Int32) < 0 by decide⟩

/-! ### Sequences of captures -/

@[simp] theorem fill_nil (m : StackMap) : fill H m [] = m := rfl

/-- Captures are made one after the other. -/
@[simp] theorem fill_append (m : StackMap) (cs ds : List Capture) :
    fill H m (cs ++ ds) = fill H (fill H m cs) ds :=
  List.foldl_append ..

@[simp] theorem fill_singleton (m : StackMap) (c : Capture) :
    fill H m [c] = (getStackid H m c).1 := rfl

/-- A bucket never changes once it is filled. -/
theorem lookup_fill_of_lookup {id : UInt32} {trace : UserTrace} (h : m.lookup id = some trace)
    (cs : List Capture) : (fill H m cs).lookup id = some trace := by
  induction cs generalizing m with
  | nil => exact h
  | cons c cs ih =>
      refine ih (m := (getStackid H m c).1) ?_
      rw [lookup_getStackid, h, Option.some_or]

/-- A capture uses one bucket more. -/
theorem usedBuckets_snoc (m : StackMap) (cs : List Capture) (c : Capture) :
    usedBuckets H m (cs ++ [c]) = usedBuckets H m cs ∪ (c.bucket? H).toFinset := by
  rw [usedBuckets, usedBuckets, List.filterMap_append, List.toFinset_append, Finset.union_assoc]
  congr 2
  cases hb : c.bucket? H with
  | none => simp [hb]
  | some id => simp [hb]

/-- The buckets that are filled are all that were asked for, until the elements run out. -/
theorem keys_fill (m : StackMap) (cs : List Capture) :
    (fill H m cs).keys.toFinset ⊆ usedBuckets H m cs ∧
      (fill H m cs).size = min stackTracesMaxEntries (usedBuckets H m cs).card := by
  induction cs using List.reverseRecOn with
  | nil =>
      refine ⟨Finset.subset_union_left, ?_⟩
      have hcard := List.toFinset_card_of_nodup m.toAList.keys_nodup
      have hle := m.size_le
      rw [fill_nil, usedBuckets, List.filterMap_nil, List.toFinset_nil, Finset.union_empty,
        BoundedMap.size, BoundedMap.keys, hcard]
      omega
  | append_singleton cs c ih =>
      obtain ⟨hsub, hsize⟩ := ih
      have hcard := List.toFinset_card_of_nodup (fill H m cs).toAList.keys_nodup
      rw [fill_append, fill_singleton, usedBuckets_snoc]
      rcases keys_getStackid (H := H) (fill H m cs) c with ⟨id, hid, habs, hroom, hkeys⟩ |
        ⟨hfull, heq⟩
      · -- the bucket is a new one, since all buckets in use are filled
        have hall : (fill H m cs).keys.toFinset = usedBuckets H m cs := by
          refine Finset.eq_of_subset_of_card_le hsub ?_
          rw [BoundedMap.keys, hcard]
          rw [BoundedMap.size, BoundedMap.keys] at hsize hroom
          omega
        have hnew : id ∉ usedBuckets H m cs := by
          rw [← hall, List.mem_toFinset]
          exact habs
        rw [hid, BoundedMap.size, hkeys, List.toFinset_cons, hall, List.length_cons]
        refine ⟨by simp, ?_⟩
        rw [Option.toFinset_some, Finset.union_comm, ← Finset.insert_eq,
          Finset.card_insert_of_notMem hnew]
        rw [BoundedMap.size] at hsize hroom
        omega
      · rw [heq]
        refine ⟨hsub.trans Finset.subset_union_left, ?_⟩
        cases hb : c.bucket? H with
        | none => rw [Option.toFinset_none, Finset.union_empty, hsize]
        | some id =>
            by_cases habs : id ∈ (fill H m cs).keys
            · have hmem : id ∈ usedBuckets H m cs := hsub (List.mem_toFinset.mpr habs)
              rw [Option.toFinset_some, Finset.union_comm, ← Finset.insert_eq,
                Finset.insert_eq_of_mem hmem, hsize]
            · have hle := hfull id hb habs
              have hsub' : usedBuckets H m cs ⊆ usedBuckets H m cs ∪ (some id).toFinset :=
                Finset.subset_union_left
              have hmono := Finset.card_le_card hsub'
              omega

/-- Before the bucket is asked for, all captures are earlier ones. -/
theorem earlier_eq_self {id : UInt32} {cs : List Capture}
    (h : ∀ d ∈ cs, d.bucket? H ≠ some id) : earlier H id cs = cs := by
  rw [earlier, List.takeWhile_eq_self_iff]
  exact fun d hd => decide_eq_true (h d hd)

/-- A bucket that no capture went to has no first trace. -/
theorem firstTrace_eq_none {id : UInt32} {cs : List Capture}
    (h : ∀ d ∈ cs, d.bucket? H ≠ some id) : firstTrace H id cs = none := by
  rw [firstTrace, List.find?_eq_none.mpr fun d hd => by simpa using h d hd, Option.bind_none]

/-- The first capture that asks for the bucket. -/
theorem firstTrace_snoc_of_notMem {id : UInt32} {cs : List Capture} {c : Capture}
    (h : ∀ d ∈ cs, d.bucket? H ≠ some id) (hid : c.bucket? H = some id) :
    firstTrace H id (cs ++ [c]) = c.walk ∧ earlier H id (cs ++ [c]) = cs := by
  have hself := earlier_eq_self h
  have hnone : (cs.find? fun d => d.bucket? H = some id) = none :=
    List.find?_eq_none.mpr fun d hd => by simpa using h d hd
  constructor
  · rw [firstTrace, List.find?_append, hnone, Option.none_or, List.find?_singleton,
      if_pos (decide_eq_true hid), Option.bind_some]
  · rw [earlier, List.takeWhile_append, ← earlier, hself, if_pos rfl]
    simp [hid]

/-- Once the bucket is asked for, later captures do not matter. -/
theorem firstTrace_append_of_mem {id : UInt32} {cs : List Capture} {d : Capture} (hd : d ∈ cs)
    (hid : d.bucket? H = some id) (ds : List Capture) :
    firstTrace H id (cs ++ ds) = firstTrace H id cs ∧
      earlier H id (cs ++ ds) = earlier H id cs ∧ (firstTrace H id cs).isSome := by
  have hfound : (cs.find? fun c => c.bucket? H = some id).isSome :=
    List.find?_isSome.mpr ⟨d, hd, decide_eq_true hid⟩
  refine ⟨?_, ?_, ?_⟩
  · rw [firstTrace, firstTrace, List.find?_append, Option.or_of_isSome hfound]
  · rw [earlier, earlier, List.takeWhile_append, if_neg]
    intro hlen
    have hall := List.takeWhile_eq_self_iff.mp
      ((List.takeWhile_prefix _).eq_of_length hlen) d hd
    exact of_decide_eq_true hall hid
  · obtain ⟨e, he⟩ := Option.isSome_iff_exists.mp hfound
    have hbucket : e.bucket? H = some id := by simpa using List.find?_some he
    obtain ⟨trace, htrace, -⟩ := Option.map_eq_some_iff.mp hbucket
    rw [firstTrace, he, Option.bind_some, htrace]
    rfl

/-- The captures before the first in a bucket use no more buckets than all. -/
theorem usedBuckets_earlier_subset (m : StackMap) (id : UInt32) (cs : List Capture) :
    usedBuckets H m (earlier H id cs) ⊆ usedBuckets H m cs := by
  refine Finset.union_subset_union_right fun x hx => ?_
  rw [List.mem_toFinset] at hx ⊢
  exact ((List.takeWhile_sublist _).filterMap _).subset hx

/-- **What a bucket holds**: the stack it started with or else the first one that selected it,
provided the elements had not run out by then. -/
theorem lookup_fill (m : StackMap) (cs : List Capture) (id : UInt32) :
    (fill H m cs).lookup id =
      (m.lookup id).or
        (if (usedBuckets H m (earlier H id cs)).card < stackTracesMaxEntries then
          firstTrace H id cs
        else none) := by
  cases hl : m.lookup id with
  | some trace => rw [lookup_fill_of_lookup hl, Option.some_or]
  | none =>
      rw [Option.none_or]
      induction cs using List.reverseRecOn with
      | nil => rw [fill_nil, hl, firstTrace_eq_none (by simp), ite_self]
      | append_singleton cs c ih =>
          obtain ⟨-, hsize⟩ := keys_fill (H := H) m cs
          have hcard := Finset.card_le_card (usedBuckets_earlier_subset (H := H) m id cs)
          rw [fill_append, fill_singleton, lookup_getStackid, ih]
          by_cases hex : ∃ d ∈ cs, d.bucket? H = some id
          · obtain ⟨d, hd, hid⟩ := hex
            obtain ⟨hfirst, hearlier, hsome⟩ := firstTrace_append_of_mem hd hid [c]
            obtain ⟨trace, htrace⟩ := Option.isSome_iff_exists.mp hsome
            rw [hfirst, hearlier]
            by_cases hroom : (usedBuckets H m (earlier H id cs)).card < stackTracesMaxEntries
            · rw [if_pos hroom, htrace, Option.some_or]
            · -- the elements ran out before the bucket was asked for, and still are
              rw [if_neg hroom, Option.none_or, if_neg fun h => absurd h.2 (by omega)]
          · have habs : ∀ d ∈ cs, d.bucket? H ≠ some id := fun d hd hid => hex ⟨d, hd, hid⟩
            rw [firstTrace_eq_none habs, ite_self, Option.none_or, hsize]
            by_cases hid : c.bucket? H = some id
            · obtain ⟨hfirst, hearlier⟩ := firstTrace_snoc_of_notMem habs hid
              rw [hfirst, hearlier]
              by_cases hroom : (usedBuckets H m cs).card < stackTracesMaxEntries
              · rw [if_pos hroom, if_pos ⟨hid, by omega⟩]
              · rw [if_neg hroom, if_neg fun h => absurd h.2 (by omega)]
            · have habs' : ∀ d ∈ cs ++ [c], d.bucket? H ≠ some id := by
                intro d hd
                rcases List.mem_append.mp hd with hd | hd
                · exact habs d hd
                · rwa [List.mem_singleton.mp hd]
              rw [firstTrace_eq_none habs', ite_self, if_neg fun h => hid h.1]

/-! ### Reading a stack back -/

/-- An error number shows no stack. -/
theorem retrieve_of_neg (m : StackMap) {stackId : Int32} (h : stackId < 0) :
    retrieve m stackId = [] := by
  rw [retrieve, readStackAddrs]
  exact if_pos h

/-- The addresses up to the first zero of a bucket are those of its trace. -/
theorem takeWhile_contents (trace : UserTrace) :
    (List.ofFn fun j : Fin perfMaxStackDepth => trace.addrs.getD j 0).takeWhile (· ≠ 0) =
      trace.shown := by
  have hpad : (List.ofFn fun j : Fin perfMaxStackDepth => trace.addrs.getD j 0) =
      trace.addrs ++ List.replicate (perfMaxStackDepth - trace.addrs.length) 0 := by
    have hle := trace.length_le
    refine List.ext_getElem (by simp; omega) fun j h₁ h₂ => ?_
    rw [List.getElem_ofFn, List.getElem_append]
    split
    · rename_i h
      rw [List.getD_eq_getElem _ _ h]
    · rename_i h
      rw [List.getD_eq_default _ _ (Nat.not_lt.mp h), List.getElem_replicate]
  rw [hpad, UserTrace.shown, List.takeWhile_append]
  split
  · rename_i h
    rw [List.takeWhile_replicate, if_neg (by simp), List.append_nil,
      (List.takeWhile_prefix _).eq_of_length h]
  · rfl

/-- Reading a bucket back. -/
theorem retrieve_toInt32 (m : StackMap) (trace : UserTrace) :
    retrieve m (H.bucketOf trace).toInt32 =
      ((m.lookup (H.bucketOf trace)).map UserTrace.shown).getD [] := by
  have hlt := H.bucket_lt (H.hash trace.addrs)
  have hnonneg : ¬ (H.bucketOf trace).toInt32 < 0 := by
    rw [UInt32.lt_iff_toNat_lt, show (0x80000000 : UInt32).toNat = 2147483648 from rfl] at hlt
    rw [Int32.not_lt, Int32.le_iff_toInt_le, StackHash.bucketOf, Int32.toInt_zero,
      ← Int32.toInt_toBitVec, UInt32.toBitVec_toInt32, BitVec.toInt_eq_toNat_cond,
      if_pos (by rw [UInt32.toNat_toBitVec]; omega)]
    exact Int.natCast_nonneg _
  rw [retrieve, readStackAddrs]
  dsimp only
  rw [if_neg hnonneg, UInt32.toUInt32_toInt32, StackMap.contents]
  cases hl : m.lookup (H.bucketOf trace) with
  | none => rfl
  | some stored =>
      rw [Option.map_some, Option.map_some, Option.getD_some]
      dsimp only
      rw [takeWhile_contents, UserTrace.shown, List.take_of_length_le]
      exact (List.takeWhile_sublist _).length_le.trans stored.length_le

/-- **What is read back for the result of a capture**, at any later time: the addresses of the
stack it names. -/
theorem retrieve_of_prefix (m : StackMap) {pre cs : List Capture} {c : Capture}
    (h : pre ++ [c] <+: cs) :
    retrieve (fill H m cs) (getStackid H (fill H m pre) c).2 =
      ((c.named H (fill H m pre)).map UserTrace.shown).getD [] := by
  obtain ⟨post, rfl⟩ := h
  rcases getStackid_snd (H := H) (fill H m pre) c with ⟨hnone, hneg⟩ |
    ⟨trace, -, hsome, hnamed, hid⟩
  · rw [retrieve_of_neg _ hneg, hnone]
    rfl
  · obtain ⟨stored, hstored⟩ := Option.isSome_iff_exists.mp hsome
    have hlookup : (fill H m (pre ++ [c])).lookup (H.bucketOf trace) = some stored := by
      rw [fill_append, fill_singleton, ← hnamed, hstored]
    rw [hid, retrieve_toInt32, fill_append, lookup_fill_of_lookup hlookup, hstored]

end UnifiedTrace
