import Mathlib.Data.List.Chain
import UnifiedTrace.StackJson

/-!
# The Order of a Printed Stack

A captured stack lists addresses from the innermost call outwards. An address with inlined
calls stands for several frames: the function that contains it, and inside that the inlined
calls, which blazesym lists outermost first. Going outwards they come in the opposite order
and the function comes last; `bsw_resolve` writes the function first and then the inlined calls
in blazesym's order.

A `Spot` is a frame by its place in the call chain, so that equal frames are told apart.

## Main results

* `map_frameAt_printedSpots`: the printed frames are those of the printed spots.
* `isChain_printedSpots_iff`: each printed frame is followed by its caller exactly when no
  printed address has inlined calls.
* `inlined_call_after_function`: a function printed before the call inlined into it.
-/

namespace UnifiedTrace

/-! ### Spots of the call chain -/

/-- A frame of the call chain: the address it belongs to, counted from the innermost call, and
how many inlined calls of that address it lies inside, itself included. -/
structure Spot where
  addr : ℕ
  depth : ℕ
  deriving DecidableEq

/-- How many calls are inlined at the address. -/
def Symbolized.inlinedCount : Symbolized → ℕ
  | sym s => s.inlined.length
  | unknown => 0

/-- `b` called `a`, where address `j` has `counts j` inlined calls: `b` is the frame around `a`
at the same address, or `a` is the function at its address and `b` the innermost frame of the
next address. -/
def Spot.CalledBy (counts : ℕ → ℕ) (a b : Spot) : Prop :=
  b.addr = a.addr ∧ a.depth = b.depth + 1 ∨
    a.depth = 0 ∧ b.addr = a.addr + 1 ∧ b.depth = counts b.addr

/-- The numbers of inlined calls at the addresses of a stack. -/
def inlinedCounts (results : List Symbolized) (j : ℕ) : ℕ :=
  (results[j]?.map Symbolized.inlinedCount).getD 0

/-- The spots in the order in which `bsw_resolve` goes through them, from address `j` on. -/
def spotsFrom (j : ℕ) : List Symbolized → List Spot
  | [] => []
  | res :: results =>
      (List.range (res.inlinedCount + 1)).map (Spot.mk j) ++ spotsFrom (j + 1) results

/-- The frame at a spot. -/
def frameAt (pairs : List (UInt64 × Symbolized)) (s : Spot) : Option BswFrame :=
  pairs[s.addr]?.bind fun pair => (framesOf pair)[s.depth]?

/-- The spots whose frames fit into the array of `emit_stack_json`. -/
def printedSpots (addrs : List UInt64) (results : List Symbolized) : List Spot :=
  (spotsFrom 0 (results.take addrs.length)).take (addrs.length * 4)

/-! ### The frames of the spots -/

/-- An address has a frame for its function and one for each inlined call. -/
theorem length_framesOf (pair : UInt64 × Symbolized) :
    (framesOf pair).length = pair.2.inlinedCount + 1 := by
  obtain ⟨addr, res⟩ := pair
  cases res with
  | sym s => simp [framesOf, Symbolized.inlinedCount]
  | unknown => rfl

/-- A list is what its positions hold. -/
theorem map_getElem?_range {α : Type*} (l : List α) :
    (List.range l.length).map (fun d => l[d]?) = l.map some := by
  refine List.ext_getElem (by simp) fun d h₁ h₂ => ?_
  simp

/-- Pairing keeps as many results as there are addresses. -/
theorem map_snd_zip_eq_take {α β : Type*} (as : List α) (bs : List β) :
    (as.zip bs).map Prod.snd = bs.take as.length := by
  induction as generalizing bs with
  | nil => rfl
  | cons a as ih =>
      cases bs with
      | nil => rfl
      | cons b bs =>
          rw [List.zip_cons_cons, List.map_cons, ih, List.length_cons, List.take_succ_cons]

/-- The spots from some address on have the frames of those addresses. -/
theorem map_frameAt_spotsFrom (pre pairs : List (UInt64 × Symbolized)) :
    (spotsFrom pre.length (pairs.map Prod.snd)).map (frameAt (pre ++ pairs)) =
      (pairs.flatMap framesOf).map some := by
  induction pairs generalizing pre with
  | nil => rfl
  | cons pair pairs ih =>
      have hrest := ih (pre ++ [pair])
      rw [List.length_append, List.length_singleton, List.append_assoc,
        List.singleton_append] at hrest
      have hpair : frameAt (pre ++ pair :: pairs) ∘ Spot.mk pre.length =
          fun d => (framesOf pair)[d]? := by
        funext d
        simp [frameAt]
      rw [List.map_cons, spotsFrom, List.map_append, List.map_map, hpair, hrest,
        ← length_framesOf, map_getElem?_range, List.flatMap_cons, List.map_append]

/-- **The printed frames are those of the printed spots.** -/
theorem map_frameAt_printedSpots (addrs : List UInt64) (results : List Symbolized)
    (out : List BswFrame) (hout : out.length = addrs.length * 4) :
    (printedSpots addrs results).map (frameAt (addrs.zip results)) =
      (bswResolve (some results) addrs out).filled.map some := by
  have hframes := map_frameAt_spotsFrom [] (addrs.zip results)
  rw [List.nil_append, List.length_nil, map_snd_zip_eq_take] at hframes
  rw [filled_bswResolve, Option.getD_some, printedSpots, List.map_take, hframes, hout,
    List.map_take]

/-! ### When the order is that of the calls -/

/-- An address with inlined calls is printed in the wrong order. -/
theorem inlinedCount_eq_zero_of_isChain {counts : ℕ → ℕ} {j cap : ℕ}
    {results : List Symbolized} (hcap : results.length < cap)
    (h : ((spotsFrom j results).take cap).IsChain (Spot.CalledBy counts)) :
    ∀ res ∈ results, res.inlinedCount = 0 := by
  induction results generalizing j cap with
  | nil => exact fun res hres => absurd hres List.not_mem_nil
  | cons res results ih =>
      obtain ⟨cap, rfl⟩ : ∃ c, cap = c + 1 := ⟨cap - 1, by omega⟩
      rw [List.length_cons] at hcap
      rw [spotsFrom] at h
      rcases Nat.eq_zero_or_pos res.inlinedCount with hzero | hpos
      · rw [hzero] at h
        refine List.forall_mem_cons.mpr ⟨hzero, ih (by omega) (List.IsChain.tail h)⟩
      · -- the function comes first and is followed by its outermost inlined call
        exfalso
        obtain ⟨k, hk⟩ : ∃ k, res.inlinedCount = k + 1 := ⟨res.inlinedCount - 1, by omega⟩
        obtain ⟨c, rfl⟩ : ∃ c, cap = c + 1 := ⟨cap - 1, by omega⟩
        rw [hk, List.range_succ_eq_map, List.range_succ_eq_map] at h
        rcases (List.isChain_cons_cons.mp h).1 with ⟨-, hdepth⟩ | ⟨-, haddr, -⟩
        · exact absurd hdepth (by simp)
        · exact absurd haddr (by simp)

/-- Without inlined calls the addresses are printed one after the other. -/
theorem isChain_spotsFrom {counts : ℕ → ℕ} {j : ℕ} {results : List Symbolized}
    (hcounts : ∀ k res, results[k]? = some res → counts (j + k) = res.inlinedCount)
    (h : ∀ res ∈ results, res.inlinedCount = 0) :
    (spotsFrom j results).IsChain (Spot.CalledBy counts) := by
  induction results generalizing j with
  | nil => exact List.isChain_nil
  | cons res results ih =>
      obtain ⟨hzero, hrest⟩ := List.forall_mem_cons.mp h
      have htail := @ih (j + 1) (fun k r hr => by
        rw [Nat.add_assoc, Nat.add_comm 1]
        exact hcounts (k + 1) r hr) hrest
      rw [spotsFrom, hzero]
      refine List.isChain_cons.mpr ⟨?_, htail⟩
      cases results with
      | nil => exact fun b hb => absurd hb (by simp [spotsFrom])
      | cons res' results =>
          intro b hb
          have hzero' : res'.inlinedCount = 0 := hrest res' List.mem_cons_self
          rw [spotsFrom, hzero'] at hb
          obtain rfl : Spot.mk (j + 1) 0 = b := Option.some.inj hb
          refine .inr ⟨rfl, rfl, ?_⟩
          rw [← hzero']
          exact (hcounts 1 res' rfl).symm

/-- **When each printed frame is followed by its caller**: exactly when no printed address has
inlined calls. -/
theorem isChain_printedSpots_iff (addrs : List UInt64) (results : List Symbolized) :
    (printedSpots addrs results).IsChain (Spot.CalledBy (inlinedCounts results)) ↔
      ∀ res ∈ results.take addrs.length, res.inlinedCount = 0 := by
  rw [printedSpots]
  constructor
  · intro h
    rcases Nat.eq_zero_or_pos addrs.length with hz | hpos
    · rw [hz, List.take_zero]
      exact fun res hres => absurd hres List.not_mem_nil
    · refine inlinedCount_eq_zero_of_isChain ?_ h
      rw [List.length_take]
      omega
  · intro h
    refine (isChain_spotsFrom ?_ h).take _
    intro k res hres
    rw [Nat.zero_add, inlinedCounts]
    rw [List.getElem?_take] at hres
    split at hres
    · rw [hres]
      rfl
    · exact absurd hres (by simp)

/-! ### What `emit_stack_json` prints -/

/-- The addresses that are printed. -/
def shownAddrs (env : StackEnv) (stackId : Int32) : List UInt64 :=
  (readStackAddrs env stackId perfMaxStackDepth).take env.maxStackFramesInJson

/-- The frame of a resolved element. -/
def StackFrame.frame? : StackFrame → Option BswFrame
  | addr _ => none
  | resolved frame => some frame

/-- How `emit_stack_json` cuts the stack. -/
theorem ite_take_eq_shownAddrs (env : StackEnv) (stackId : Int32) :
    (if (readStackAddrs env stackId perfMaxStackDepth).length > env.maxStackFramesInJson then
      (readStackAddrs env stackId perfMaxStackDepth).take env.maxStackFramesInJson
      else readStackAddrs env stackId perfMaxStackDepth) = shownAddrs env stackId := by
  rw [shownAddrs]
  split
  · rfl
  · rename_i hle
    exact (List.take_of_length_le (Nat.not_lt.mp hle)).symm

/-- With the symbolizer at hand the printed elements are the frames it wrote. -/
theorem emitStackJson_eq {env : StackEnv} {i : ℕ} (hon : env.symbolizeEnabled = true)
    (hsym : env.symbolizer = true) (hcalloc : env.calloc i = true) (stackId : Int32)
    (pid : UInt32) :
    emitStackJson env i stackId pid =
      (bswResolve (env.symbolize i pid (shownAddrs env stackId)) (shownAddrs env stackId)
        (List.replicate ((shownAddrs env stackId).length * 4) (.zeroed 0))).filled.map
          .resolved := by
  rw [emitStackJson]
  dsimp only
  split
  · rename_i hempty
    have hnil : shownAddrs env stackId = [] := by
      rw [shownAddrs, List.length_eq_zero_iff.mp hempty, List.take_nil]
    rw [hnil, filled_bswResolve]
    rfl
  · have hresolve : ¬ (¬ env.symbolizeEnabled = true ∨ ¬ env.symbolizer = true) := by
      simp [hon, hsym]
    rw [ite_take_eq_shownAddrs, if_neg hresolve]
    rfl

/-- The printed array is a call chain: its elements are the frames of the printed spots, and
each of these was called by the next. -/
def PrintsCallChain (env : StackEnv) (i : ℕ) (stackId : Int32) (pid : UInt32)
    (results : List Symbolized) : Prop :=
  (emitStackJson env i stackId pid).map StackFrame.frame? =
      (printedSpots (shownAddrs env stackId) results).map
        (frameAt ((shownAddrs env stackId).zip results)) ∧
    (printedSpots (shownAddrs env stackId) results).IsChain
      (Spot.CalledBy (inlinedCounts results))

/-- **When a resolved stack is printed as a call chain**: exactly when none of the addresses
that are printed has inlined calls. -/
theorem printsCallChain_iff {env : StackEnv} {i : ℕ} {stackId : Int32} {pid : UInt32}
    {results : List Symbolized} (hon : env.symbolizeEnabled = true)
    (hsym : env.symbolizer = true) (hcalloc : env.calloc i = true)
    (hresults : env.symbolize i pid (shownAddrs env stackId) = some results) :
    PrintsCallChain env i stackId pid results ↔
      ∀ res ∈ results.take (shownAddrs env stackId).length, res.inlinedCount = 0 := by
  rw [← isChain_printedSpots_iff, PrintsCallChain]
  refine and_iff_right ?_
  rw [emitStackJson_eq hon hsym hcalloc, hresults,
    map_frameAt_printedSpots _ _ _ List.length_replicate, List.map_map]
  rfl

/-- A stack of two addresses; the symbolizer finds a function at each, and in the first a
number of calls inlined into it. -/
def twoAddresses (inlined : List InlinedFn) : StackEnv where
  stackMap := some fun _ => some fun j => if j.val < 2 then 0x400000 + UInt64.ofNat j.val else 0
  symbolizeEnabled := true
  symbolizer := true
  maxStackFramesInJson := 12
  calloc := fun _ => true
  symbolize := fun _ _ _ => some
    [.sym { name := ascii "inner", codeInfo := none, inlined, module := none },
      .sym { name := ascii "main", codeInfo := none, inlined := [], module := none }]

/-- Without inlined calls the chain is printed as it is. -/
theorem printsCallChain_iff_no_inlined_calls :
    PrintsCallChain (twoAddresses []) 0 3 7
      [.sym { name := ascii "inner", codeInfo := none, inlined := [], module := none },
        .sym { name := ascii "main", codeInfo := none, inlined := [], module := none }] := by
  refine (printsCallChain_iff rfl rfl rfl rfl).mpr fun res hres => ?_
  rcases List.mem_cons.mp (List.mem_of_mem_take hres) with rfl | hres
  · rfl
  · obtain rfl := List.mem_singleton.mp hres
    rfl

/-- The call inlined into `inner` is printed after it, where its caller should be. -/
theorem inlined_call_after_function :
    (emitStackJson (twoAddresses [⟨ascii "leaf", none⟩]) 0 3 7).map StackFrame.text =
        [ascii "\x7b\"sym\":\"inner\"\x7d", ascii "\x7b\"sym\":\"leaf\",\"inlined\":1\x7d",
          ascii "\x7b\"sym\":\"main\"\x7d"] ∧
      ¬ PrintsCallChain (twoAddresses [⟨ascii "leaf", none⟩]) 0 3 7
        [.sym { name := ascii "inner", codeInfo := none, inlined := [⟨ascii "leaf", none⟩],
                module := none },
          .sym { name := ascii "main", codeInfo := none, inlined := [], module := none }] := by
  refine ⟨by decide +kernel, fun h => ?_⟩
  have hzero := (isChain_printedSpots_iff _ _).mp h.2
  exact absurd (hzero _ List.mem_cons_self) (by decide)

end UnifiedTrace
