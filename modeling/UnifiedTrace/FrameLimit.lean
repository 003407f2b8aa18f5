import Mathlib.Order.MinMax
import UnifiedTrace.CallChain
import UnifiedTrace.Expansion

/-!
# How Much of a Stack is Printed

`emit_stack_json` cuts a captured stack to `--max-stack-frames` addresses. Without a symbolizer
it prints these. With one, `bsw_resolve` expands them into at most four times as many frames,
so the limit on the addresses is not one on the frames, and the frames of late addresses can
be crowded out by inlined calls of early ones. When `bsw_resolve` reports a failure nothing is
printed.

## Main results

* `keepsLimit_iff`: when the printed array has at most `--max-stack-frames` elements.
* `showsCallFrames_iff`: when every address that is kept has its call frame printed.
* `fallsBack_iff`: when a failed symbolization leaves the raw addresses.
-/

namespace UnifiedTrace

/-! ### The two paths -/

/-- The stack was captured with these addresses. -/
def capturedAddrs (env : StackEnv) (stackId : Int32) : List UInt64 :=
  readStackAddrs env stackId perfMaxStackDepth

/-- `emit_stack_json` gets as far as `bsw_resolve`. -/
def StackEnv.CallsSymbolizer (env : StackEnv) (i : ℕ) : Prop :=
  env.symbolizeEnabled = true ∧ env.symbolizer = true ∧ env.calloc i = true

/-- What `emit_stack_json` passes to `bsw_resolve`, and what comes back. -/
def resolvedBuf (env : StackEnv) (i : ℕ) (stackId : Int32) (pid : UInt32) : FrameBuf :=
  bswResolve (env.symbolize i pid (shownAddrs env stackId)) (shownAddrs env stackId)
    (List.replicate ((shownAddrs env stackId).length * 4) (.zeroed 0))

/-- The same without symbolization. -/
def StackEnv.rawOnly (env : StackEnv) : StackEnv := { env with symbolizeEnabled := false }

/-- How many frames stand for the addresses. -/
def frameCount (results : List Symbolized) : ℕ :=
  (results.map fun res => res.inlinedCount + 1).sum

variable {env : StackEnv} {i : ℕ} {stackId : Int32} {pid : UInt32}

/-- The limit leaves at least one address if there are any. -/
theorem shownAddrs_eq_nil_iff (hN : 1 ≤ env.maxStackFramesInJson) :
    shownAddrs env stackId = [] ↔ capturedAddrs env stackId = [] := by
  rw [shownAddrs, List.take_eq_nil_iff, ← capturedAddrs]
  exact or_iff_right (by omega)

/-- The symbolizer is used when it is enabled and present. -/
theorem not_disabled (hon : env.symbolizeEnabled = true) (hsym : env.symbolizer = true) :
    ¬ (env.symbolizeEnabled = false ∨ env.symbolizer = false) := by
  rw [hon, hsym]
  rintro (h | h)
  · cases h
  · cases h

/-- Without a symbolizer the raw addresses are printed. -/
theorem emitStackJson_raw (h : env.symbolizeEnabled = false ∨ env.symbolizer = false) :
    emitStackJson env i stackId pid = (shownAddrs env stackId).map .addr := by
  have hraw : ¬ env.symbolizeEnabled = true ∨ ¬ env.symbolizer = true := by
    rcases h with h | h
    · exact .inl (by simp [h])
    · exact .inr (by simp [h])
  rw [emitStackJson]
  dsimp only
  rw [ite_take_eq_shownAddrs, if_pos hraw]
  split
  · rename_i hempty
    rw [shownAddrs, List.length_eq_zero_iff.mp hempty, List.take_nil]
    rfl
  · rfl

/-- Without memory for the frames nothing is printed. -/
theorem emitStackJson_no_memory (hon : env.symbolizeEnabled = true)
    (hsym : env.symbolizer = true) (hcalloc : env.calloc i = false) :
    emitStackJson env i stackId pid = [] := by
  rw [emitStackJson]
  dsimp only
  split
  · rfl
  · rw [if_neg (by simp [hon, hsym]), if_pos (by simp [hcalloc])]

/-- How `emit_stack_json` goes on after the stack is cut. -/
theorem emitStackJson_cases (env : StackEnv) (i : ℕ) (stackId : Int32) (pid : UInt32) :
    ((env.symbolizeEnabled = false ∨ env.symbolizer = false) ∧
        emitStackJson env i stackId pid = (shownAddrs env stackId).map .addr) ∨
      (env.symbolizeEnabled = true ∧ env.symbolizer = true) ∧
        (env.calloc i = false ∧ emitStackJson env i stackId pid = [] ∨
          env.calloc i = true ∧ emitStackJson env i stackId pid =
            (resolvedBuf env i stackId pid).filled.map .resolved) := by
  cases hon : env.symbolizeEnabled with
  | false => exact .inl ⟨.inl rfl, emitStackJson_raw (.inl hon)⟩
  | true =>
      cases hsym : env.symbolizer with
      | false => exact .inl ⟨.inr rfl, emitStackJson_raw (.inr hsym)⟩
      | true =>
          refine .inr ⟨⟨rfl, rfl⟩, ?_⟩
          cases hcalloc : env.calloc i with
          | false => exact .inl ⟨rfl, emitStackJson_no_memory hon hsym hcalloc⟩
          | true => exact .inr ⟨rfl, emitStackJson_eq hon hsym hcalloc stackId pid⟩

/-- The frames that `bsw_resolve` returns. -/
theorem filled_resolvedBuf (env : StackEnv) (i : ℕ) (stackId : Int32) (pid : UInt32) :
    (resolvedBuf env i stackId pid).filled =
      (expansion (shownAddrs env stackId)
        ((env.symbolize i pid (shownAddrs env stackId)).getD [])).take
          ((shownAddrs env stackId).length * 4) := by
  rw [resolvedBuf, filled_bswResolve, List.length_replicate, funext framesOf_eq_expansionOf,
    expansion]

/-- The expansion has a frame for each function and each inlined call. -/
theorem length_expansion (addrs : List UInt64) (results : List Symbolized) :
    (expansion addrs results).length = frameCount (results.take addrs.length) := by
  have hlen : ∀ pair, (expansionOf pair).length = pair.2.inlinedCount + 1 := fun pair =>
    framesOf_eq_expansionOf pair ▸ length_framesOf pair
  rw [expansion, List.length_flatMap, funext hlen, frameCount, ← map_snd_zip_eq_take,
    List.map_map]
  rfl

/-! ### The limit on the frames -/

/-- The printed array keeps to `--max-stack-frames`. -/
def KeepsLimit (env : StackEnv) (i : ℕ) (stackId : Int32) (pid : UInt32) : Prop :=
  (emitStackJson env i stackId pid).length ≤ env.maxStackFramesInJson

/-- **When a printed stack keeps to the limit**: if it is symbolized, either four frames for
every address that is kept are within the limit, or all frames of these addresses are. -/
theorem keepsLimit_iff (env : StackEnv) (i : ℕ) (stackId : Int32) (pid : UInt32) :
    KeepsLimit env i stackId pid ↔
      (env.CallsSymbolizer i → ∀ results ∈ env.symbolize i pid (shownAddrs env stackId),
        (shownAddrs env stackId).length * 4 ≤ env.maxStackFramesInJson ∨
          frameCount (results.take (shownAddrs env stackId).length) ≤
            env.maxStackFramesInJson) := by
  rw [KeepsLimit, StackEnv.CallsSymbolizer]
  rcases emitStackJson_cases env i stackId pid with
    ⟨hraw, heq⟩ | ⟨⟨hon, hsym⟩, ⟨hcalloc, heq⟩ | ⟨hcalloc, heq⟩⟩
  · have hlen : (shownAddrs env stackId).length ≤ env.maxStackFramesInJson := by
      rw [shownAddrs, List.length_take]
      exact Nat.min_le_left ..
    rw [heq, List.length_map]
    refine iff_of_true hlen ?_
    rintro ⟨hon, hsym, -⟩
    exact absurd hraw (not_disabled hon hsym)
  · rw [heq]
    refine iff_of_true (Nat.zero_le _) ?_
    rintro ⟨-, -, hmem⟩
    rw [hcalloc] at hmem
    cases hmem
  · rw [heq, List.length_map, filled_resolvedBuf, List.length_take, length_expansion,
      min_le_iff, forall_prop_of_true ⟨hon, hsym, hcalloc⟩]
    cases env.symbolize i pid (shownAddrs env stackId) with
    | none => simp [frameCount]
    | some results => simp

/-- One address with a call inlined into its function, and a limit of one frame: two frames
are printed. -/
theorem inlined_call_exceeds_limit :
    (emitStackJson { twoAddresses [⟨ascii "leaf", none⟩] with maxStackFramesInJson := 1 }
        0 3 7).map StackFrame.text =
      [ascii "\x7b\"sym\":\"inner\"\x7d", ascii "\x7b\"sym\":\"leaf\",\"inlined\":1\x7d"] ∧
      ¬ KeepsLimit { twoAddresses [⟨ascii "leaf", none⟩] with maxStackFramesInJson := 1 }
        0 3 7 := by
  rw [KeepsLimit]
  exact ⟨by decide +kernel, by decide +kernel⟩

/-! ### The call frames -/

/-- The address of a printed call frame; the frames of inlined calls are none. -/
def StackFrame.callAddr? : StackFrame → Option UInt64
  | addr a => some a
  | resolved frame => if frame.inlined = 0 then some frame.addr else none

/-- The addresses of the call frames that are printed, in order. -/
def callAddrs (frames : List StackFrame) : List UInt64 :=
  frames.filterMap StackFrame.callAddr?

/-- The call frames that are printed are those of the addresses that are kept, which are the
ones that the raw path prints. -/
def ShowsCallFrames (env : StackEnv) (i : ℕ) (stackId : Int32) (pid : UInt32) : Prop :=
  callAddrs (emitStackJson env i stackId pid) =
      (capturedAddrs env stackId).take env.maxStackFramesInJson ∧
    emitStackJson env.rawOnly i stackId pid =
      (callAddrs (emitStackJson env i stackId pid)).map .addr

/-- How many calls are inlined at the addresses before the last. -/
def inlinedBeforeLast (results : List Symbolized) : ℕ :=
  (results.dropLast.map Symbolized.inlinedCount).sum

/-- The expansion of an address has one call frame, in front. -/
theorem callAddrs_expansionOf (pair : UInt64 × Symbolized) (frames : List BswFrame) (cap : ℕ) :
    callAddrs (((expansionOf pair ++ frames).take (cap + 1)).map .resolved) =
      pair.1 :: callAddrs ((frames.take (cap - pair.2.inlinedCount)).map .resolved) := by
  obtain ⟨a, res⟩ := pair
  cases res with
  | unknown => rfl
  | sym s =>
      have hinlined : callAddrs (((s.inlined.map (inlinedCallFrame a)).take cap).map
          .resolved) = [] := by
        refine List.filterMap_eq_nil_iff.mpr fun frame hframe => ?_
        obtain ⟨f, hf, rfl⟩ := List.mem_map.mp hframe
        obtain ⟨inl, -, rfl⟩ := List.mem_map.mp (List.mem_of_mem_take hf)
        rfl
      rw [expansionOf, List.cons_append, List.take_succ_cons, List.take_append, List.length_map,
        List.map_cons, List.map_append, callAddrs,
        List.filterMap_cons_some (f := StackFrame.callAddr?) (b := a) rfl,
        List.filterMap_append, ← callAddrs, ← callAddrs, hinlined]
      rfl

/-- **Which call frames fit**: those of all addresses exactly when the last one's own frame
does. -/
theorem callAddrs_take_eq_iff (pairs : List (UInt64 × Symbolized)) (cap : ℕ) :
    callAddrs (((pairs.flatMap expansionOf).take cap).map .resolved) = pairs.map Prod.fst ↔
      pairs = [] ∨ frameCount ((pairs.map Prod.snd).dropLast) < cap := by
  induction pairs generalizing cap with
  | nil =>
      rw [List.flatMap_nil, List.take_nil]
      exact iff_of_true rfl (.inl rfl)
  | cons pair pairs ih =>
      cases cap with
      | zero =>
          refine iff_of_false (fun h => ?_) ?_
          · cases h
          · rintro (h | h)
            · cases h
            · exact absurd h (Nat.not_lt_zero _)
      | succ cap =>
          rw [List.flatMap_cons, callAddrs_expansionOf, List.map_cons, List.cons_inj_right, ih]
          cases pairs with
          | nil => simp [frameCount]
          | cons pair' pairs =>
              have hfirst : frameCount (pair.2 :: (List.map Prod.snd (pair' :: pairs)).dropLast) =
                  pair.2.inlinedCount + 1 +
                    frameCount (List.map Prod.snd (pair' :: pairs)).dropLast := by
                rw [frameCount, List.map_cons, List.sum_cons, ← frameCount]
              rw [List.map_cons (l := pair' :: pairs), List.dropLast_cons_of_ne_nil (by simp),
                hfirst]
              simp only [reduceCtorEq, false_or]
              omega

/-- The frames are the results and their inlined calls. -/
theorem frameCount_eq (results : List Symbolized) :
    frameCount results = (results.map Symbolized.inlinedCount).sum + results.length := by
  induction results with
  | nil => rfl
  | cons res results ih =>
      rw [frameCount, List.map_cons, List.sum_cons, ← frameCount, ih, List.map_cons,
        List.sum_cons, List.length_cons]
      omega

/-- **When a symbolized stack shows all its call frames**: at the addresses before the last
there are at most three inlined calls for every address that is kept. -/
theorem showsCallFrames_iff {results : List Symbolized} (hcall : env.CallsSymbolizer i)
    (hresults : env.symbolize i pid (shownAddrs env stackId) = some results)
    (hlen : results.length = (shownAddrs env stackId).length) :
    ShowsCallFrames env i stackId pid ↔
      inlinedBeforeLast results ≤ 3 * (shownAddrs env stackId).length := by
  obtain ⟨hon, hsym, hcalloc⟩ := hcall
  have hraw : emitStackJson env.rawOnly i stackId pid = (shownAddrs env stackId).map .addr :=
    emitStackJson_raw (.inl rfl)
  have hfst : ((shownAddrs env stackId).zip results).map Prod.fst = shownAddrs env stackId :=
    List.map_fst_zip hlen.ge
  have hsnd : ((shownAddrs env stackId).zip results).map Prod.snd = results :=
    List.map_snd_zip hlen.le
  have hemit : callAddrs (emitStackJson env i stackId pid) = shownAddrs env stackId ↔
      (shownAddrs env stackId).zip results = [] ∨
        frameCount results.dropLast < (shownAddrs env stackId).length * 4 := by
    have hfits := callAddrs_take_eq_iff ((shownAddrs env stackId).zip results)
      ((shownAddrs env stackId).length * 4)
    rw [hfst, hsnd] at hfits
    rw [emitStackJson_eq hon hsym hcalloc, ← resolvedBuf, filled_resolvedBuf, hresults]
    exact hfits
  have hshows : ShowsCallFrames env i stackId pid ↔
      callAddrs (emitStackJson env i stackId pid) = shownAddrs env stackId := by
    refine ⟨And.left, fun h => ⟨h, ?_⟩⟩
    rw [hraw, h]
  rw [hshows, hemit, frameCount_eq, List.length_dropLast, ← inlinedBeforeLast, hlen]
  rcases Nat.eq_zero_or_pos (shownAddrs env stackId).length with hzero | hpos
  · obtain rfl := List.length_eq_zero_iff.mp (hlen.trans hzero)
    exact iff_of_true (.inl List.zip_nil_right) (Nat.zero_le _)
  · have hne : (shownAddrs env stackId).zip results ≠ [] := by
      intro h
      rw [h, List.map_nil] at hfst
      rw [← hfst] at hpos
      exact Nat.lt_irrefl 0 hpos
    rw [or_iff_right hne]
    omega

/-- One inlined call is shown with its function. -/
theorem showsCallFrames_iff_one_inlined :
    ShowsCallFrames (twoAddresses [⟨ascii "leaf", none⟩]) 0 3 7 := by
  have hresults : (twoAddresses [⟨ascii "leaf", none⟩]).symbolize 0 7
      (shownAddrs (twoAddresses [⟨ascii "leaf", none⟩]) 3) =
        some [.sym ⟨ascii "inner", none, [⟨ascii "leaf", none⟩], none⟩,
          .sym ⟨ascii "main", none, [], none⟩] :=
    rfl
  exact (showsCallFrames_iff ⟨rfl, rfl, rfl⟩ hresults (by decide +kernel)).mpr (by decide +kernel)

/-- Seven calls inlined at the first of two addresses: the eight slots are full before the
function at the second one. -/
theorem inlined_calls_crowd_out_caller :
    capturedAddrs (twoAddresses (List.replicate 7 ⟨ascii "leaf", none⟩)) 3 =
        [0x400000, 0x400001] ∧
      callAddrs (emitStackJson (twoAddresses (List.replicate 7 ⟨ascii "leaf", none⟩)) 0 3 7) =
        [0x400000] ∧
      ¬ ShowsCallFrames (twoAddresses (List.replicate 7 ⟨ascii "leaf", none⟩)) 0 3 7 := by
  refine ⟨by decide +kernel, by decide +kernel, fun h => ?_⟩
  exact absurd h.1 (by decide +kernel)

/-! ### When symbolization fails -/

/-- Symbolization is disabled, there is no symbolizer, or `bsw_resolve` returns `0`. -/
def SymbolizationFails (env : StackEnv) (i : ℕ) (stackId : Int32) (pid : UInt32) : Prop :=
  env.symbolizeEnabled = false ∨ env.symbolizer = false ∨
    (resolvedBuf env i stackId pid).written = 0

/-- When symbolization fails, the raw addresses that are kept are printed, and nothing only if
nothing was captured. -/
def FallsBack (env : StackEnv) (i : ℕ) (stackId : Int32) (pid : UInt32) : Prop :=
  SymbolizationFails env i stackId pid →
    emitStackJson env i stackId pid =
        ((capturedAddrs env stackId).take env.maxStackFramesInJson).map .addr ∧
      (emitStackJson env i stackId pid = [] → capturedAddrs env stackId = [])

/-- `bsw_resolve` returns `0` exactly when there is no result. -/
theorem written_resolvedBuf_eq_zero_iff (hshown : shownAddrs env stackId ≠ []) :
    (resolvedBuf env i stackId pid).written = 0 ↔
      (env.symbolize i pid (shownAddrs env stackId)).getD [] = [] := by
  rw [resolvedBuf]
  cases env.symbolize i pid (shownAddrs env stackId) with
  | none =>
      refine iff_of_true ?_ rfl
      rw [bswResolve]
      split <;> rfl
  | some results =>
      obtain ⟨hwritten, -⟩ := bswResolve_eq_expansion results (shownAddrs env stackId)
        (List.replicate ((shownAddrs env stackId).length * 4) (.zeroed 0))
      have hpos : 0 < (shownAddrs env stackId).length := List.length_pos_of_ne_nil hshown
      rw [hwritten, length_expansion, frameCount_eq, List.length_replicate, List.length_take,
        Option.getD_some, ← List.length_eq_zero_iff]
      constructor
      · intro h
        omega
      · intro h
        rw [List.length_eq_zero_iff.mp h, List.take_nil, List.map_nil, List.sum_nil,
          List.length_nil, Nat.min_zero, Nat.add_zero, Nat.min_zero]

/-- **When the fallback is reached**: without symbolization, and otherwise only if
`bsw_resolve` does not fail. -/
theorem fallsBack_iff (hcaptured : capturedAddrs env stackId ≠ [])
    (hN : 1 ≤ env.maxStackFramesInJson) :
    FallsBack env i stackId pid ↔
      env.symbolizeEnabled = false ∨ env.symbolizer = false ∨
        ∃ result results,
          env.symbolize i pid (shownAddrs env stackId) = some (result :: results) := by
  have hshown : shownAddrs env stackId ≠ [] := mt (shownAddrs_eq_nil_iff hN).mp hcaptured
  have hfails := @written_resolvedBuf_eq_zero_iff env i stackId pid hshown
  rw [FallsBack, SymbolizationFails, hfails]
  rcases emitStackJson_cases env i stackId pid with ⟨hraw, heq⟩ | ⟨⟨hon, hsym⟩, hempty⟩
  · refine iff_of_true (fun _ => ⟨heq, fun hnil => ?_⟩) (hraw.imp_right .inl)
    rw [heq, List.map_eq_nil_iff] at hnil
    exact absurd hnil hshown
  · cases hanswer : (env.symbolize i pid (shownAddrs env stackId)).getD [] with
    | nil =>
        -- `bsw_resolve` fails, and the array is empty
        refine iff_of_false (fun h => ?_) ?_
        · have hnil : emitStackJson env i stackId pid = [] := by
            rcases hempty with ⟨-, heq⟩ | ⟨-, heq⟩
            · exact heq
            · rw [heq, FrameBuf.filled, hfails.mpr hanswer, List.take_zero, List.map_nil]
          exact hcaptured ((h (.inr (.inr rfl))).2 hnil)
        · rintro (h | h | ⟨result, results, h⟩)
          · exact not_disabled hon hsym (.inl h)
          · exact not_disabled hon hsym (.inr h)
          · rw [h] at hanswer
            cases hanswer
    | cons result results =>
        refine iff_of_true (fun h => ?_) (.inr (.inr ⟨result, results, ?_⟩))
        · rcases h with h | h | h
          · exact absurd (.inl h) (not_disabled hon hsym)
          · exact absurd (.inr h) (not_disabled hon hsym)
          · cases h
        · cases hsome : env.symbolize i pid (shownAddrs env stackId) with
          | none =>
              rw [hsome] at hanswer
              cases hanswer
          | some rs =>
              rw [hsome] at hanswer
              exact congrArg some hanswer

/-- Without a symbolizer the raw addresses are shown. -/
theorem fallsBack_iff_not_symbolized : FallsBack (twoAddresses []).rawOnly 0 3 7 :=
  (fallsBack_iff (by decide +kernel) (by decide)).mpr (.inl rfl)

/-- The process has exited: blazesym answers with an error, and the two addresses are lost. -/
theorem exited_process_prints_nothing :
    capturedAddrs { twoAddresses [] with symbolize := fun _ _ _ => none } 3 =
        [0x400000, 0x400001] ∧
      stackText (emitStackJson { twoAddresses [] with symbolize := fun _ _ _ => none } 0 3 7) =
        ascii "[]" ∧
      ¬ FallsBack { twoAddresses [] with symbolize := fun _ _ _ => none } 0 3 7 := by
  refine ⟨by decide +kernel, by decide +kernel, fun h => ?_⟩
  have hraw := (h (.inr (.inr (by decide +kernel)))).2
  exact absurd (hraw (List.eq_nil_of_length_eq_zero (by decide +kernel))) (by decide +kernel)

end UnifiedTrace
