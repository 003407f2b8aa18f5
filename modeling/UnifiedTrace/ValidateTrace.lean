import UnifiedTrace.EventShape
import UnifiedTrace.TraceValue

/-!
# The Trace Validator

`tests/e2e/validate_trace.py` reads a trace file back and checks it. The model follows `main`
over the value that `json.loads` returns: a Python operation that raises an exception ends the
script with status `1`, as `fail` does. A dictionary made from an object with repeated keys keeps
the last of them. Python strings are sequences of UTF-16 code units here, which compare equal
exactly when the strings do.

What the script prints is left out; the failures keep their data.

## Main results

* `validateTrace_ok_iff`: what the checks amount to for documents of the tracer's form.
* `validateMain_traceFile`: the status of the script for a trace file, told from the records.
-/

namespace UnifiedTrace

open Json

/-! ### Python values -/

/-- A Python string. -/
abbrev PyStr := List UInt16

/-- The string of an ASCII literal of the script. -/
def pyStr (s : String) : PyStr := units (ascii s)

/-- How `main` ends if it does not return. -/
inductive ValidateFailure
  /-- An exception that nobody catches. -/
  | exception
  /-- `traceEvents is not a list`. -/
  | notAList
  /-- `got ... events, expected >= ...`. -/
  | tooFew (got : ℕ) (expected : ℤ)
  /-- `missing required categories: ...`. -/
  | missing (categories : List PyStr)
  /-- `zero GPU events present (and --no-require-gpu not set)`. -/
  | noGpu
  /-- `no stack frames matched source marker ...`. -/
  | noStack (marker : PyStr)
  deriving DecidableEq

/-- A part of the script that may not return. -/
abbrev Py (α : Type) := Except ValidateFailure α

/-- What `dict` keeps of the members of an object: the last value of each key. -/
def lastMember (key : PyStr) : List (PyStr × Value) → Option Value
  | [] => none
  | (k, v) :: ms => (lastMember key ms).or (if k = key then some v else none)

/-- `v.get(key)`; only dictionaries have `get`. -/
def pyGet (v : Value) (key : PyStr) : Py (Option Value) :=
  match v with
  | .obj ms => .ok (lastMember key ms)
  | _ => .error .exception

/-- `bool(v)`, by the truth of numbers. -/
def truthy (numTruthy : Bytes → Bool) : Value → Bool
  | .null => false
  | .bool b => b
  | .num text => numTruthy text
  | .str s => s ≠ []
  | .arr vs => !vs.isEmpty
  | .obj ms => !ms.isEmpty

/-- `[x for x in xs if p(x)]`. -/
def selectM {α : Type} (p : α → Py Bool) : List α → Py (List α)
  | [] => .ok []
  | x :: xs => do
      let keep ← p x
      let rest ← selectM p xs
      return if keep then x :: rest else rest

/-- `any(p(x) for x in xs)`, which stops at the first hit. -/
def pyAny {α : Type} (p : α → Py Bool) : List α → Py Bool
  | [] => .ok false
  | x :: xs => do
      if ← p x then return true
      pyAny p xs

/-! ### The checks -/

/-- The arguments of the script, with their defaults. -/
structure ValidateArgs where
  expectEventsMin : ℤ := 1
  requireCategories : PyStr := []
  requireStacksFrom : List PyStr := []
  noRequireStacksFrom : Bool := false
  noRequireGpu : Bool := false

/-- `e.get("ph") != "M"`. -/
def isReal (e : Value) : Py Bool := do
  match ← pyGet e (pyStr "ph") with
  | some (.str s) => return s ≠ pyStr "M"
  | _ => return true

/-- `cats_seen` after the loop: lists and dictionaries cannot be members of a set. -/
def catsSeen (numTruthy : Bytes → Bool) : List Value → Py (List Value)
  | [] => .ok []
  | e :: es => do
      let rest := catsSeen numTruthy es
      match ← pyGet e (pyStr "cat") with
      | some c =>
          if truthy numTruthy c then
            match c with
            | .arr _ => .error .exception
            | .obj _ => .error .exception
            | c => return c :: (← rest)
          else rest
      | none => rest

/-- The value is a string. -/
def isStr : Value → Bool
  | .str _ => true
  | _ => false

/-- The value is this string. -/
def isStrOf (s : PyStr) : Value → Bool
  | .str s' => s' = s
  | _ => false

/-- `sorted(cats)`: strings do not compare with anything else. -/
def pySorted (cats : List Value) : Py Unit :=
  if cats.any isStr ∧ cats.any (fun c => !isStr c) then .error .exception else .ok ()

/-- The list `required`. -/
def ValidateArgs.required (args : ValidateArgs) : List PyStr :=
  (args.requireCategories.splitOn 0x2C).filter (· ≠ [])

/-- The list `missing` that is reported. -/
def ValidateArgs.missing (args : ValidateArgs) (cats : List Value) : List PyStr :=
  let missing := args.required.filter fun c => !cats.any (isStrOf c)
  if args.noRequireGpu then missing.filter fun c => !(pyStr "gpu_").isPrefixOf c else missing

/-- `(e.get("cat") or "").startswith("gpu")`. -/
def isGpu (numTruthy : Bytes → Bool) (e : Value) : Py Bool := do
  match ← pyGet e (pyStr "cat") with
  | some c =>
      if truthy numTruthy c then
        match c with
        | .str s => return (pyStr "gpu").isPrefixOf s
        | _ => .error .exception
      else return false
  | none => return false

/-- `e.get("args") or {}`. -/
def argsOf (numTruthy : Bytes → Bool) (e : Value) : Py Value := do
  match ← pyGet e (pyStr "args") with
  | some v => return if truthy numTruthy v then v else .obj []
  | none => return .obj []

/-- `(e.get("args") or {}).get("stack")`. -/
def stackValueOf (numTruthy : Bytes → Bool) (e : Value) : Py (Option Value) := do
  pyGet (← argsOf numTruthy e) (pyStr "stack")

/-- The local function `has_marker` on a frame. -/
def frameHasMarker (marker : PyStr) : Value → Bool
  | .obj ms => [pyStr "file", pyStr "sym", pyStr "lib"].any fun key =>
      match (lastMember key ms).getD (.str []) with
      | .str s => decide (marker <:+: s)
      | _ => false
  | _ => false

/-- The local function `has_marker`. -/
def hasMarker (stack : Option Value) (marker : PyStr) : Bool :=
  match stack with
  | some (.arr frames) => frames.any (frameHasMarker marker)
  | _ => false

/-- `"stack" in (e.get("args") or {})`: numbers and `True` do not support `in`. -/
def hasStackKey (numTruthy : Bytes → Bool) (e : Value) : Py Bool := do
  match ← argsOf numTruthy e with
  | .obj ms => return (lastMember (pyStr "stack") ms).isSome
  | .arr vs => return vs.any (isStrOf (pyStr "stack"))
  | .str s => return decide (pyStr "stack" <:+: s)
  | _ => .error .exception

/-- Whether the stack of an event has frames. -/
def hasFrames (numTruthy : Bytes → Bool) (e : Value) : Py Bool := do
  match ← stackValueOf numTruthy e with
  | some (.arr frames) => return !frames.isEmpty
  | _ => return false

/-- `count == 0` for a marker. -/
def unmatched (shown : List (Option Value)) (marker : PyStr) : Bool :=
  !shown.any fun stack => hasMarker stack marker

/-- The stack check: the first marker that no stack has is reported. -/
def checkStacks (numTruthy : Bytes → Bool) (wanted : List PyStr) (real : List Value) :
    Py Unit := do
  let shown ← real.mapM (stackValueOf numTruthy)
  match wanted.find? (unmatched shown) with
  | some m => .error (.noStack m)
  | none => return ()

/-- The section on stack attribution, which only runs if it is asked for. -/
def checkAttribution (numTruthy : Bytes → Bool) (args : ValidateArgs) (real : List Value) :
    Py Unit :=
  if args.requireStacksFrom ≠ [] ∧ args.noRequireStacksFrom = false then
    checkStacks numTruthy args.requireStacksFrom real
  else .ok ()

/-- `if c: fail(...)`. -/
def failIf (c : Prop) [Decidable c] (f : ValidateFailure) : Py Unit :=
  if c then .error f else .ok ()

/-- `doc.get("traceEvents", [])`, checked to be a list. -/
def eventsOf (doc : Value) : Py (List Value) := do
  match (← pyGet doc (pyStr "traceEvents")).getD (.arr []) with
  | .arr events => return events
  | _ => .error .notAList

/-- `main` after the file was read. -/
def validateTrace (numTruthy : Bytes → Bool) (args : ValidateArgs) (doc : Value) : Py Unit := do
  let events ← eventsOf doc
  let real ← selectM isReal events
  failIf ((real.length : ℤ) < args.expectEventsMin)
    (.tooFew real.length args.expectEventsMin)
  let cats ← catsSeen numTruthy real
  pySorted cats
  failIf (args.missing cats ≠ []) (.missing (args.missing cats))
  let hasGpu ← pyAny (isGpu numTruthy) real
  failIf (hasGpu = false ∧ args.noRequireGpu = false) .noGpu
  checkAttribution numTruthy args real
  -- the counts of the last two loops are only printed
  let _ ← selectM (hasStackKey numTruthy) real
  let _ ← selectM (hasFrames numTruthy) real
  return ()

/-- How `json.loads` of the text of a file can fail. -/
inductive LoadError
  /-- `json.JSONDecodeError`, which `main` catches. -/
  | jsonDecodeError
  /-- Any other exception. -/
  | other

/-- The exit status of the script, by the bytes of the file if there is one. -/
def validateMain (loads : Bytes → Except LoadError Value) (numTruthy : Bytes → Bool)
    (args : ValidateArgs) (file : Option Bytes) : ℕ :=
  match file with
  | none => 2
  | some text =>
      match loads text with
      | .error .jsonDecodeError => 2
      | .error .other => 1
      | .ok doc =>
          match validateTrace numTruthy args doc with
          | .ok _ => 0
          | .error _ => 1

/-! ### Parts that return -/

/-- A sequence returns when both of its parts do. -/
theorem py_bind_ok_iff {α β : Type} {x : Py α} {f : α → Py β} {b : β} :
    (x >>= f) = .ok b ↔ ∃ a, x = .ok a ∧ f a = .ok b := by
  cases x with
  | error e => simp [bind, Except.bind]
  | ok a => simp [bind, Except.bind]

/-- A check passes exactly when its condition is false. -/
theorem failIf_ok_iff {c : Prop} [Decidable c] {f : ValidateFailure} {u : Unit} :
    failIf c f = .ok u ↔ ¬ c := by
  rw [failIf]
  split
  · exact iff_of_false (by simp) (not_not.mpr ‹_›)
  · exact iff_of_true rfl ‹_›

section Ok

variable {ι α β : Type} {val : ι → α} {xs : List ι}

/-- A comprehension over parts that all return. -/
theorem selectM_of_ok {p : α → Py Bool} {q : ι → Bool} (h : ∀ x ∈ xs, p (val x) = .ok (q x)) :
    selectM p (xs.map val) = .ok ((xs.filter q).map val) := by
  induction xs with
  | nil => rfl
  | cons x xs ih =>
      obtain ⟨hx, hxs⟩ := List.forall_mem_cons.mp h
      rw [List.map_cons, selectM, hx, ih hxs]
      cases hq : q x with
      | true => rw [List.filter_cons_of_pos hq]; rfl
      | false => rw [List.filter_cons_of_neg (by simp [hq])]; rfl

/-- `any` over tests that do not raise is the test of the list. -/
theorem pyAny_of_ok {p : α → Py Bool} {q : ι → Bool} (h : ∀ x ∈ xs, p (val x) = .ok (q x)) :
    pyAny p (xs.map val) = .ok (xs.any q) := by
  induction xs with
  | nil => rfl
  | cons x xs ih =>
      obtain ⟨hx, hxs⟩ := List.forall_mem_cons.mp h
      rw [List.map_cons, pyAny, hx, List.any_cons, ih hxs]
      cases q x <;> rfl

/-- A comprehension whose body does not raise is the map of the list. -/
theorem mapM_of_ok {f : α → Py β} {g : ι → β} (h : ∀ x ∈ xs, f (val x) = .ok (g x)) :
    (xs.map val).mapM f = .ok (xs.map g) := by
  induction xs with
  | nil => rfl
  | cons x xs ih =>
      obtain ⟨hx, hxs⟩ := List.forall_mem_cons.mp h
      rw [List.map_cons, List.mapM_cons, hx, ih hxs]
      rfl

end Ok

/-- The part does not raise an exception. -/
def NoException {α : Type} (x : Py α) : Prop := x ≠ .error .exception

section NoException

variable {α β : Type} {x : Py α}

/-- What returns does not raise. -/
theorem NoException.of_ok {a : α} (h : x = .ok a) : NoException x := by
  rw [h, NoException]
  exact fun he => absurd he (by simp)

/-- A sequence raises no exception if neither of its parts does. -/
theorem NoException.bind {f : α → Py β} (hx : NoException x)
    (hf : ∀ a, x = .ok a → NoException (f a)) : NoException (x >>= f) := by
  cases hxa : x with
  | error e =>
      rintro ⟨⟩
      exact hx hxa
  | ok a => exact hf a hxa

/-- A failed check is a message and not an exception. -/
theorem noException_failIf {c : Prop} [Decidable c] {f : ValidateFailure} (h : f ≠ .exception) :
    NoException (failIf c f) := by
  rw [failIf, NoException]
  split
  · exact fun he => h (Except.error.inj he)
  · exact fun he => absurd he (by simp)

end NoException

/-- An event as the tracer writes it: a category that is a non-empty string, and arguments that
are a dictionary whose stack, if any, is a list. -/
structure PlainEvent (e : Value) (cat : PyStr) (frames : Option (List Value)) : Prop where
  getCat : pyGet e (pyStr "cat") = .ok (some (.str cat))
  cat_ne : cat ≠ []
  getArgs : ∃ ms, (pyGet e (pyStr "args") = .ok (some (.obj ms)) ∨
      pyGet e (pyStr "args") = .ok none ∧ ms = []) ∧
    lastMember (pyStr "stack") ms = frames.map Value.arr

section PlainEvent

variable {numTruthy : Bytes → Bool} {e : Value} {cat : PyStr} {frames : Option (List Value)}

/-- A nonempty string is true. -/
theorem truthy_str {s : PyStr} (h : s ≠ []) : truthy numTruthy (.str s) = true :=
  decide_eq_true h

/-- The category of a plain event is tested for its prefix. -/
theorem PlainEvent.isGpu (h : PlainEvent e cat frames) :
    isGpu numTruthy e = .ok ((pyStr "gpu").isPrefixOf cat) := by
  rw [UnifiedTrace.isGpu, h.getCat]
  change (if truthy numTruthy (.str cat) = true then _ else _) = _
  rw [if_pos (truthy_str h.cat_ne)]
  rfl

variable (numTruthy) in
/-- The arguments are a dictionary with the stack. -/
theorem PlainEvent.argsOf (h : PlainEvent e cat frames) :
    ∃ ms, argsOf numTruthy e = .ok (.obj ms) ∧
      lastMember (pyStr "stack") ms = frames.map Value.arr := by
  obtain ⟨ms, hargs | ⟨hargs, rfl⟩, hstack⟩ := h.getArgs
  · refine ⟨ms, ?_, hstack⟩
    rw [UnifiedTrace.argsOf, hargs]
    change Except.ok (if truthy numTruthy (.obj ms) = true then Value.obj ms else .obj []) = _
    cases ms with
    | nil => rw [ite_self]
    | cons m ms => rfl
  · refine ⟨[], ?_, hstack⟩
    rw [UnifiedTrace.argsOf, hargs]
    rfl

/-- The stack of a plain event is its array of frames, or missing. -/
theorem PlainEvent.stackValueOf (h : PlainEvent e cat frames) :
    stackValueOf numTruthy e = .ok (frames.map Value.arr) := by
  obtain ⟨ms, hargs, hstack⟩ := h.argsOf numTruthy
  rw [UnifiedTrace.stackValueOf, hargs, ← hstack]
  rfl

/-- A plain event has the stack key when it has frames. -/
theorem PlainEvent.hasStackKey (h : PlainEvent e cat frames) :
    hasStackKey numTruthy e = .ok frames.isSome := by
  obtain ⟨ms, hargs, hstack⟩ := h.argsOf numTruthy
  rw [UnifiedTrace.hasStackKey, hargs]
  change Except.ok (lastMember (pyStr "stack") ms).isSome = _
  rw [hstack, Option.isSome_map]

/-- A plain event counts as having frames when its array is not empty. -/
theorem PlainEvent.hasFrames (h : PlainEvent e cat frames) :
    hasFrames numTruthy e = .ok (frames.elim false fun fs => !fs.isEmpty) := by
  rw [UnifiedTrace.hasFrames, h.stackValueOf]
  cases frames <;> rfl

/-- The loop over categories collects those of all events. -/
theorem catsSeen_of_plain {ι : Type} {val : ι → Value} {cat : ι → PyStr}
    {frames : ι → Option (List Value)} {xs : List ι}
    (h : ∀ x ∈ xs, PlainEvent (val x) (cat x) (frames x)) :
    catsSeen numTruthy (xs.map val) = .ok (xs.map fun x => .str (cat x)) := by
  induction xs with
  | nil => rfl
  | cons x xs ih =>
      obtain ⟨hx, hxs⟩ := List.forall_mem_cons.mp h
      rw [List.map_cons, catsSeen, hx.getCat]
      change (if truthy numTruthy (.str (cat x)) = true then _ else _) = _
      rw [if_pos (truthy_str hx.cat_ne), ih hxs]
      rfl

end PlainEvent

/-! ### What the checks amount to -/

/-- The checks pass for events with these categories and stacks. -/
structure ValidateArgs.Meets (args : ValidateArgs) (cats : List PyStr)
    (shown : List (Option (List Value))) : Prop where
  enough : args.expectEventsMin ≤ cats.length
  categories : ∀ c ∈ args.required, c ∈ cats ∨ args.noRequireGpu = true ∧ pyStr "gpu_" <+: c
  gpu : args.noRequireGpu = true ∨ ∃ c ∈ cats, pyStr "gpu" <+: c
  markers : args.noRequireStacksFrom = true ∨
    ∀ m ∈ args.requireStacksFrom, ∃ frames ∈ shown, hasMarker (frames.map .arr) m = true

/-- Strings can be sorted. -/
theorem pySorted_strs (cats : List PyStr) : pySorted (cats.map .str) = .ok () := by
  rw [pySorted, if_neg]
  rintro ⟨-, h⟩
  obtain ⟨v, hv, hstr⟩ := List.any_eq_true.mp h
  obtain ⟨c, -, rfl⟩ := List.mem_map.mp hv
  exact absurd hstr (by simp [isStr])

/-- No category is reported missing exactly when the required ones were seen, the GPU ones apart
if no GPU is required. -/
theorem missing_eq_nil_iff (args : ValidateArgs) (cats : List PyStr) :
    args.missing (cats.map .str) = [] ↔
      ∀ c ∈ args.required, c ∈ cats ∨ args.noRequireGpu = true ∧ pyStr "gpu_" <+: c := by
  have hseen : ∀ c : PyStr, (!(cats.map Value.str).any (isStrOf c)) = true ↔ c ∉ cats := by
    intro c
    rw [Bool.not_eq_true', Bool.eq_false_iff, ne_eq, List.any_map, List.any_eq_true]
    refine not_congr ⟨?_, fun hc => ⟨c, hc, decide_eq_true rfl⟩⟩
    rintro ⟨c', hc', heq⟩
    exact of_decide_eq_true heq ▸ hc'
  rw [ValidateArgs.missing]
  cases hg : args.noRequireGpu with
  | false =>
      rw [if_neg Bool.false_ne_true, List.filter_eq_nil_iff]
      refine forall₂_congr fun c _ => ?_
      rw [hseen, not_not]
      simp
  | true =>
      rw [if_pos rfl, List.filter_filter, List.filter_eq_nil_iff]
      refine forall₂_congr fun c _ => ?_
      rw [Bool.and_eq_true, hseen, Bool.not_eq_true', Bool.eq_false_iff, ne_eq,
        List.isPrefixOf_iff_prefix, and_comm, not_and_or, not_not, not_not]
      simp

/-- The stack check finds every marker. -/
theorem checkStacks_ok_iff {numTruthy : Bytes → Bool} {ι : Type} {val : ι → Value}
    {cat : ι → PyStr} {frames : ι → Option (List Value)} {xs : List ι} (wanted : List PyStr)
    (h : ∀ x ∈ xs, PlainEvent (val x) (cat x) (frames x)) :
    checkStacks numTruthy wanted (xs.map val) = .ok () ↔
      ∀ m ∈ wanted, ∃ fs ∈ xs.map frames, hasMarker (fs.map .arr) m = true := by
  rw [checkStacks, mapM_of_ok fun x hx => (h x hx).stackValueOf]
  have hmatched : ∀ m, unmatched (xs.map fun x => (frames x).map Value.arr) m = true ↔
      ¬ ∃ fs ∈ xs.map frames, hasMarker (fs.map .arr) m = true := by
    intro m
    rw [unmatched, Bool.not_eq_true', Bool.eq_false_iff, ne_eq, List.any_eq_true]
    simp
  change (match wanted.find? (unmatched (xs.map fun x => (frames x).map Value.arr)) with
    | some m => Except.error (ValidateFailure.noStack m)
    | none => .ok ()) = .ok () ↔ _
  cases hfind : wanted.find? (unmatched (xs.map fun x => (frames x).map Value.arr)) with
  | none =>
      refine iff_of_true rfl fun m hm => not_not.mp fun hne => ?_
      exact List.find?_eq_none.mp hfind m hm ((hmatched m).mpr hne)
  | some m =>
      refine iff_of_false (by simp) fun hall => ?_
      exact (hmatched m).mp (List.find?_some hfind) (hall m (List.mem_of_find?_eq_some hfind))

/-- The checks on stacks do not raise on plain events. -/
theorem noException_checkAttribution {numTruthy : Bytes → Bool} {args : ValidateArgs}
    {ι : Type} {val : ι → Value} {cat : ι → PyStr} {frames : ι → Option (List Value)}
    {xs : List ι} (h : ∀ x ∈ xs, PlainEvent (val x) (cat x) (frames x)) :
    NoException (checkAttribution numTruthy args (xs.map val)) := by
  rw [checkAttribution]
  split
  · rw [checkStacks]
    refine .bind (.of_ok (mapM_of_ok fun x hx => (h x hx).stackValueOf)) fun shown _ => ?_
    split
    · exact fun he => absurd (Except.error.inj he) (by simp)
    · exact .of_ok rfl
  · exact .of_ok rfl

/-- **What the checks amount to** for a document whose events are dictionaries as the tracer
writes them. -/
theorem validateTrace_ok_iff {numTruthy : Bytes → Bool} {args : ValidateArgs} {doc : Value}
    {ι : Type} {val : ι → Value} {xs : List ι} {real : ι → Bool} {cat : ι → PyStr}
    {frames : ι → Option (List Value)}
    (hdoc : pyGet doc (pyStr "traceEvents") = .ok (some (.arr (xs.map val))))
    (hreal : ∀ x ∈ xs, isReal (val x) = .ok (real x))
    (hplain : ∀ x ∈ xs.filter real, PlainEvent (val x) (cat x) (frames x)) :
    validateTrace numTruthy args doc = .ok () ↔
      args.Meets ((xs.filter real).map cat) ((xs.filter real).map frames) := by
  have hcats : ((xs.filter real).map fun x => Value.str (cat x)) =
      ((xs.filter real).map cat).map .str := by rw [List.map_map]; rfl
  have hevents : eventsOf doc = .ok (xs.map val) := by
    rw [eventsOf, hdoc]
    rfl
  have hgpu : ((xs.filter real).any fun x => (pyStr "gpu").isPrefixOf (cat x)) = false ↔
      ¬ ∃ c ∈ (xs.filter real).map cat, pyStr "gpu" <+: c := by
    rw [Bool.eq_false_iff, ne_eq, List.any_eq_true]
    simp
  have hmarkers : checkAttribution numTruthy args ((xs.filter real).map val) = .ok () ↔
      (args.noRequireStacksFrom = true ∨ ∀ m ∈ args.requireStacksFrom,
        ∃ fs ∈ (xs.filter real).map frames, hasMarker (fs.map .arr) m = true) := by
    rw [checkAttribution]
    split
    · rename_i h
      rw [checkStacks_ok_iff _ hplain, h.2]
      simp
    · rename_i h
      refine iff_of_true rfl (or_iff_not_imp_left.mpr fun hoff m hm => absurd ?_ h)
      exact ⟨List.ne_nil_of_mem hm, Bool.eq_false_iff.mpr hoff⟩
  rw [validateTrace]
  simp only [py_bind_ok_iff, hevents, selectM_of_ok hreal, catsSeen_of_plain hplain, hcats,
    pySorted_strs, pyAny_of_ok fun x hx => (hplain x hx).isGpu, failIf_ok_iff, hmarkers,
    selectM_of_ok fun x hx => (hplain x hx).hasStackKey,
    selectM_of_ok fun x hx => (hplain x hx).hasFrames, Except.ok.injEq, exists_eq_left',
    exists_const, hgpu]
  have hnoGpu : ∀ p : Prop, ¬ (¬ p ∧ args.noRequireGpu = false) ↔
      (args.noRequireGpu = true ∨ p) := by
    intro p
    cases args.noRequireGpu <;> simp
  rw [not_ne_iff, missing_eq_nil_iff, Int.not_lt, hnoGpu, List.length_map]
  constructor
  · rintro ⟨henough, -, hcategories, hgpus, hshown, -⟩
    exact ⟨by rwa [List.length_map], hcategories, hgpus, hshown⟩
  · rintro ⟨henough, hcategories, hgpus, hshown⟩
    exact ⟨by rwa [List.length_map] at henough, trivial, hcategories, hgpus, hshown, rfl⟩

/-- No exception is raised for such a document. -/
theorem noException_validateTrace {numTruthy : Bytes → Bool} {args : ValidateArgs} {doc : Value}
    {ι : Type} {val : ι → Value} {xs : List ι} {real : ι → Bool} {cat : ι → PyStr}
    {frames : ι → Option (List Value)}
    (hdoc : pyGet doc (pyStr "traceEvents") = .ok (some (.arr (xs.map val))))
    (hreal : ∀ x ∈ xs, isReal (val x) = .ok (real x))
    (hplain : ∀ x ∈ xs.filter real, PlainEvent (val x) (cat x) (frames x)) :
    NoException (validateTrace numTruthy args doc) := by
  have hevents : eventsOf doc = .ok (xs.map val) := by
    rw [eventsOf, hdoc]
    rfl
  have hcats : ((xs.filter real).map fun x => Value.str (cat x)) =
      ((xs.filter real).map cat).map .str := by rw [List.map_map]; rfl
  rw [validateTrace]
  refine .bind (.of_ok hevents) fun events he => ?_
  obtain rfl := Except.ok.inj (he.symm.trans hevents)
  refine .bind (.of_ok (selectM_of_ok hreal)) fun rs he => ?_
  obtain rfl := Except.ok.inj (he.symm.trans (selectM_of_ok hreal))
  refine .bind (noException_failIf (by simp)) fun _ _ => ?_
  refine .bind (.of_ok (catsSeen_of_plain hplain)) fun cats he => ?_
  obtain rfl := Except.ok.inj (he.symm.trans (catsSeen_of_plain hplain))
  refine .bind (.of_ok (hcats ▸ pySorted_strs _)) fun _ _ => ?_
  refine .bind (noException_failIf (by simp)) fun _ _ => ?_
  refine .bind (.of_ok (pyAny_of_ok fun x hx => (hplain x hx).isGpu)) fun _ _ => ?_
  refine .bind (noException_failIf (by simp)) fun _ _ => ?_
  refine .bind (noException_checkAttribution hplain) fun _ _ => ?_
  refine .bind (.of_ok (selectM_of_ok fun x hx => (hplain x hx).hasStackKey)) fun _ _ => ?_
  refine .bind (.of_ok (selectM_of_ok fun x hx => (hplain x hx).hasFrames)) fun _ _ => ?_
  exact .of_ok rfl

/-! ### The tracer's files -/

/-- The category of a record; the names of rows have none. -/
def Record.category : Record → Bytes
  | cpuThreadName _ _ _ | gpuThreadName _ _ => []
  | begin _ _ _ _ _ _ | finish _ _ _ _ _ | instant _ _ _ => ascii "cpu"
  | complete r => r.cat

/-- The marker occurs in a string of the element. -/
def StackFrame.Mentions (marker : PyStr) : StackFrame → Prop
  | addr _ => marker = []
  | resolved f => marker <:+: units f.shownSym ∨ marker <:+: units (cString f.file) ∨
      marker <:+: units (cString f.lib)

/-- The records that are not names of rows. -/
def realRecords (env : StackEnv) (events : List UnifiedEvent) : List Record :=
  (dueRecords env events).filter fun r => !r.IsName

/-- The script accepts a trace with these records. -/
structure ValidateArgs.Accepts (args : ValidateArgs) (rs : List Record) : Prop where
  enough : args.expectEventsMin ≤ rs.length
  categories : ∀ c ∈ args.required,
    (∃ r ∈ rs, units r.category = c) ∨ args.noRequireGpu = true ∧ pyStr "gpu_" <+: c
  gpu : args.noRequireGpu = true ∨ ∃ r, .complete r ∈ rs
  markers : args.noRequireStacksFrom = true ∨ ∀ m ∈ args.requireStacksFrom,
    ∃ r ∈ rs, ∃ frame ∈ r.stack?.getD [], frame.Mentions m

/-- The metadata records are those that are not real. -/
theorem isReal_value (r : Record) : isReal r.value = .ok (!r.IsName) := by
  cases r <;> rfl

/-- The categories of CUDA records begin alike. -/
theorem gpu_prefix_cudaOpCategory (opType : UInt32) :
    pyStr "gpu" <+: units (cudaOpCategory opType) := by
  rw [cudaOpCategory]
  split_ifs
  · exact ⟨pyStr "_sync", rfl⟩
  · exact ⟨pyStr "_xfer", rfl⟩
  · exact ⟨pyStr "_compute", rfl⟩
  · exact ⟨pyStr "_mem", rfl⟩
  · exact ⟨[], rfl⟩

/-- In two groups of members the last one with the key counts. -/
theorem lastMember_append (key : PyStr) (ms ms' : List (PyStr × Value)) :
    lastMember key (ms ++ ms') = (lastMember key ms').or (lastMember key ms) := by
  induction ms with
  | nil => exact (Option.or_none ..).symm
  | cons m ms ih => rw [List.cons_append, lastMember, ih, lastMember, Option.or_assoc]

/-- The stack among the arguments of a CUDA record. -/
theorem lastMember_cudaMembers (r : CompleteRecord) (stack : Option Value) :
    lastMember (pyStr "stack") (cudaMembers r stack) = stack := by
  have hstream : lastMember (pyStr "stack")
      (r.streamId.elim [] fun s => [hexMember (ascii "stream_id") s]) = none := by
    cases r.streamId <;> rfl
  have hasync : lastMember (pyStr "stack")
      (if r.async = true then [(units (ascii "async"), .bool true)] else []) = none := by
    split <;> rfl
  have hsize : lastMember (pyStr "stack") (r.size.elim [] sizeMembers) = none := by
    cases r.size <;> rfl
  have hptr : lastMember (pyStr "stack")
      (r.ptr.elim [] fun p => [hexMember (ascii "ptr") p]) = none := by
    cases r.ptr <;> rfl
  have hstack : lastMember (pyStr "stack") (stackMembers stack) = stack := by
    cases stack <;> rfl
  rw [cudaMembers, lastMember_append, lastMember_append, lastMember_append, lastMember_append,
    hstream, hasync, hsize, hptr, hstack]
  simp

/-- The records of a trace file are events as the script expects them. -/
theorem plainEvent_value {env : StackEnv} {events : List UnifiedEvent} {r : Record}
    (h : r ∈ realRecords env events) :
    PlainEvent r.value (units r.category) (r.stack?.map fun fs => fs.map StackFrame.value) := by
  obtain ⟨hdue, hname⟩ := List.mem_filter.mp h
  have hcpu : units (ascii "cpu") ≠ [] := by decide
  cases r with
  | cpuThreadName | gpuThreadName => exact absurd hname (by simp [Record.IsName])
  | begin ts pid tid cpu comm stack =>
      refine ⟨rfl, hcpu, _, .inl rfl, ?_⟩
      cases stack <;> rfl
  | finish ts pid tid duration state => exact ⟨rfl, hcpu, _, .inl rfl, rfl⟩
  | instant ts pid tid => exact ⟨rfl, hcpu, [], .inr ⟨rfl, rfl⟩, rfl⟩
  | complete r =>
      rw [← fileRecords_traceFile_eq] at hdue
      obtain ⟨gpu, i, -, rfl⟩ := exists_gpu_of_complete_mem hdue
      refine ⟨rfl, ?_, _, .inl rfl, ?_⟩
      · intro hnil
        have hprefix := gpu_prefix_cudaOpCategory gpu.opType
        rw [show units (cudaOpCategory gpu.opType) = [] from hnil] at hprefix
        exact absurd (List.prefix_nil.mp hprefix) (by decide)
      · change _ = ((completeRecord env (minTimestamp events) i gpu).stack.map _).map Value.arr
        rw [lastMember, lastMember, lastMember_cudaMembers]
        cases (completeRecord env (minTimestamp events) i gpu).stack <;> rfl

/-- The members of a frame that the script reads; a string that is left out reads as empty. -/
theorem getD_lastMember_value (f : BswFrame) (sym : PyStr) :
    ∃ ms, f.value sym (units (cString f.file)) (units (cString f.lib)) = .obj ms ∧
      (lastMember (pyStr "file") ms).getD (.str []) = .str (units (cString f.file)) ∧
      (lastMember (pyStr "sym") ms).getD (.str []) = .str sym ∧
      (lastMember (pyStr "lib") ms).getD (.str []) = .str (units (cString f.lib)) := by
  have hunits : ∀ t : Bytes, ¬ t.length ≠ 0 → units t = [] := by
    intro t ht
    rw [List.eq_nil_of_length_eq_zero (not_not.mp ht)]
    rfl
  refine ⟨_, rfl, ?_, ?_, ?_⟩
  · by_cases hfile : (cString f.file).length ≠ 0
    · rw [if_pos hfile]
      split_ifs <;> rfl
    · rw [if_neg hfile, hunits _ hfile]
      split_ifs <;> rfl
  · split_ifs <;> rfl
  · by_cases hlib : (cString f.lib).length ≠ 0
    · rw [if_pos hlib]
      split_ifs <;> rfl
    · rw [if_neg hlib, hunits _ hlib]
      split_ifs <;> rfl

/-- A frame of the file has the marker where the script looks for it. -/
theorem frameHasMarker_value_iff (frame : StackFrame) (m : PyStr) :
    frameHasMarker m frame.value = true ↔ frame.Mentions m := by
  cases frame with
  | addr a =>
      change (decide (m <:+: []) || (decide (m <:+: []) || (decide (m <:+: []) || false))) =
        true ↔ m = []
      simp [List.infix_nil]
  | resolved f =>
      obtain ⟨ms, hvalue, hfile, hsym, hlib⟩ := getD_lastMember_value f (units f.shownSym)
      rw [StackFrame.value, hvalue, frameHasMarker, StackFrame.Mentions]
      simp only [List.any_cons, List.any_nil, hfile, hsym, hlib, Bool.or_false, Bool.or_eq_true,
        decide_eq_true_eq]
      exact or_left_comm

/-- A stack of the file has the marker if one of its elements does. -/
theorem hasMarker_stack_iff (r : Record) (m : PyStr) :
    hasMarker ((r.stack?.map fun fs => fs.map StackFrame.value).map .arr) m = true ↔
      ∃ frame ∈ r.stack?.getD [], frame.Mentions m := by
  cases r.stack? with
  | none => exact iff_of_false Bool.false_ne_true (by simp)
  | some frames =>
      change (frames.map StackFrame.value).any (frameHasMarker m) = true ↔ _
      simp [frameHasMarker_value_iff]

/-- Of the records of a file that are not names of rows, the CUDA ones have a GPU category. -/
theorem gpu_prefix_category_iff {env : StackEnv} {events : List UnifiedEvent} {r : Record}
    (h : r ∈ realRecords env events) :
    pyStr "gpu" <+: units r.category ↔ ∃ c, r = .complete c := by
  have hcpu : ¬ pyStr "gpu" <+: units (ascii "cpu") := by decide
  obtain ⟨hdue, hname⟩ := List.mem_filter.mp h
  cases r with
  | cpuThreadName | gpuThreadName => exact absurd hname (by simp [Record.IsName])
  | begin | finish | instant => exact iff_of_false hcpu (by simp)
  | complete r =>
      rw [← fileRecords_traceFile_eq] at hdue
      obtain ⟨gpu, i, -, rfl⟩ := exists_gpu_of_complete_mem hdue
      exact iff_of_true (gpu_prefix_cudaOpCategory gpu.opType) ⟨_, rfl⟩

/-- **The script reads the tracer's records**: it accepts the value of a trace file exactly if it
accepts the records. -/
theorem validateTrace_traceValue_iff (numTruthy : Bytes → Bool) {env : StackEnv}
    {events : List UnifiedEvent} {args : ValidateArgs} :
    validateTrace numTruthy args (traceValue env events) = .ok () ↔
      args.Accepts (realRecords env events) := by
  have hgpu : (∃ c ∈ (realRecords env events).map fun r => units r.category,
      pyStr "gpu" <+: c) ↔ ∃ r, .complete r ∈ realRecords env events := by
    constructor
    · rintro ⟨c, hc, hprefix⟩
      obtain ⟨r, hr, rfl⟩ := List.mem_map.mp hc
      obtain ⟨r, rfl⟩ := (gpu_prefix_category_iff hr).mp hprefix
      exact ⟨r, hr⟩
    · rintro ⟨r, hr⟩
      exact ⟨_, List.mem_map.mpr ⟨_, hr, rfl⟩, (gpu_prefix_category_iff hr).mpr ⟨r, rfl⟩⟩
  have hmarkers : ∀ m, (∃ fs ∈ (realRecords env events).map
      fun r => r.stack?.map fun fs => fs.map StackFrame.value,
        hasMarker (fs.map .arr) m = true) ↔
      ∃ r ∈ realRecords env events, ∃ frame ∈ r.stack?.getD [], frame.Mentions m := by
    intro m
    simp only [← hasMarker_stack_iff, List.mem_map]
    constructor
    · rintro ⟨fs, ⟨r, hr, rfl⟩, hfs⟩
      exact ⟨r, hr, hfs⟩
    · rintro ⟨r, hr, hfs⟩
      exact ⟨_, ⟨r, hr, rfl⟩, hfs⟩
  have hiff := @validateTrace_ok_iff numTruthy args (traceValue env events) Record Record.value
    (dueRecords env events) _ _ _ rfl (fun r _ => isReal_value r) fun r hr => plainEvent_value hr
  rw [hiff]
  constructor
  · rintro ⟨henough, hcategories, hg, hm⟩
    refine ⟨by rwa [List.length_map] at henough, fun c hc => ?_, hg.imp_right hgpu.mp,
      hm.imp_right fun hm m hmem => (hmarkers m).mp (hm m hmem)⟩
    exact (hcategories c hc).imp_left List.mem_map.mp
  · rintro ⟨henough, hcategories, hg, hm⟩
    refine ⟨by rwa [List.length_map], fun c hc => ?_, hg.imp_right hgpu.mpr,
      hm.imp_right fun hm m hmem => (hmarkers m).mpr (hm m hmem)⟩
    exact (hcategories c hc).imp_left List.mem_map.mpr

/-- The trace file can be read: the strings of stack frames are printable, and the task names need
no escape and are UTF-8 where they are printed. -/
structure ReadableTrace (env : StackEnv) (events : List UnifiedEvent) : Prop where
  frames : env.PrintableFrames
  noEscape : ∀ e ∈ events, NoEscape e.comm.bytes
  utf8 : CommsUtf8 events

/-- A readable file is a document that says what it should. -/
theorem ReadableTrace.isDocument {env : StackEnv} {events : List UnifiedEvent}
    (h : ReadableTrace env events) :
    IsDocument (fileText (traceFile env events)) (traceValue env events) := by
  have hencoded :=
    (forall_comm_dueRecords_iff env events fun comm => Utf8.IsUtf8 comm.bytes).mpr h.utf8
  have hescape := (forall_comm_dueRecords_iff env events fun comm => NoEscape comm.bytes).mpr
    (forall_comm_of_forall_events (fun comm => NoEscape comm.bytes) h.noEscape)
  refine isDocument_traceValue fun r hr => ?_
  have hreadable := readable_of_mem_dueRecords h.frames hr
  exact r.reads_value hreadable.1 hreadable.2 fun comm hcomm =>
    ⟨hencoded r hr comm hcomm, hescape r hr comm hcomm⟩

/-- `json.loads` returns what the text denotes, if it is a document. -/
def LoadsDocument (loads : Bytes → Except LoadError Value) (text : Bytes) : Prop :=
  ∀ v, IsDocument text v → loads text = .ok v

/-- The script exits with `0` exactly if it accepts the records. -/
theorem validateMain_accepts_iff {env : StackEnv} {events : List UnifiedEvent}
    (h : ReadableTrace env events) {loads : Bytes → Except LoadError Value}
    (hloads : LoadsDocument loads (fileText (traceFile env events)))
    (numTruthy : Bytes → Bool) {args : ValidateArgs} :
    validateMain loads numTruthy args (some (fileText (traceFile env events))) = 0 ↔
      args.Accepts (realRecords env events) := by
  rw [← validateTrace_traceValue_iff numTruthy]
  simp only [validateMain, hloads _ h.isDocument]
  cases validateTrace numTruthy args (traceValue env events) with
  | ok u => exact iff_of_true rfl rfl
  | error f => exact iff_of_false (by simp) (by simp)

/-- **The validator and the tracer agree on the format.** On every readable trace file the script
exits with `0` or `1`, never with `2` and never through an exception, and with `0` exactly when
the records in the file meet what was asked for. -/
theorem validateMain_traceFile {env : StackEnv} {events : List UnifiedEvent}
    (h : ReadableTrace env events) {loads : Bytes → Except LoadError Value}
    (hloads : LoadsDocument loads (fileText (traceFile env events)))
    (numTruthy : Bytes → Bool) (args : ValidateArgs) :
    (validateMain loads numTruthy args (some (fileText (traceFile env events))) = 0 ↔
        args.Accepts (realRecords env events)) ∧
      (validateMain loads numTruthy args (some (fileText (traceFile env events))) = 1 ↔
        ¬ args.Accepts (realRecords env events)) ∧
      validateTrace numTruthy args (traceValue env events) ≠ .error .exception := by
  have haccepts : _ ↔ args.Accepts _ := validateMain_accepts_iff h hloads numTruthy
  refine ⟨haccepts, ?_, @noException_validateTrace numTruthy args (traceValue env events) Record
    Record.value (dueRecords env events) _ _ _ rfl (fun r _ => isReal_value r)
    fun r hr => plainEvent_value hr⟩
  rw [← haccepts]
  simp only [validateMain, hloads _ h.isDocument]
  cases validateTrace numTruthy args (traceValue env events) with
  | ok u => exact iff_of_false (by simp) (by simp)
  | error f => exact iff_of_true rfl (by simp)

/-! ### A reader of one file -/

/-- `json.loads` on the text of this trace file. -/
def loadsTrace (env : StackEnv) (events : List UnifiedEvent) (text : Bytes) :
    Except LoadError Value :=
  if text = fileText (traceFile env events) then .ok (traceValue env events)
  else .error .jsonDecodeError

/-- A readable trace is a document `json.loads` accepts. -/
theorem ReadableTrace.loadsDocument {env : StackEnv} {events : List UnifiedEvent}
    (h : ReadableTrace env events) :
    LoadsDocument (loadsTrace env events) (fileText (traceFile env events)) := by
  intro v hv
  rw [loadsTrace, if_pos rfl, hv.unique h.isDocument]

/-- Without stacks there is no frame to print. -/
theorem printableFrames_noStacks : StackEnv.noStacks.PrintableFrames :=
  printableFrames_of_names fun _ _ _ _ hrs => absurd hrs (by simp [StackEnv.noStacks])

/-- Nameless threads leave only stacks to read. -/
theorem readableTrace_of_nameless {env : StackEnv} (henv : env.PrintableFrames)
    {events : List UnifiedEvent} (h : ∀ e ∈ events, e.comm = .empty) :
    ReadableTrace env events where
  frames := henv
  noEscape := fun e he => h e he ▸ (by decide : NoEscape Comm.empty.bytes)
  utf8 := by
    have hempty : Utf8.IsUtf8 Comm.empty.bytes := Utf8.isUtf8_encode []
    have hall := forall_comm_of_forall_events (fun comm => Utf8.IsUtf8 comm.bytes)
      fun e he => h e he ▸ hempty
    exact hall

/-- A wakeup and a stream synchronisation. -/
def wakeupAndSync : List UnifiedEvent :=
  [.cpu (.wakeupAt 100 10), .gpu (.streamSyncAt 100 100 20 0)]

/-- Two records of the categories `gpu_sync` and `cpu` are accepted where these are asked for. -/
theorem validateMain_traceFile_two_events :
    validateMain (loadsTrace .noStacks wakeupAndSync) (fun _ => true)
        { expectEventsMin := 2, requireCategories := pyStr "gpu_sync,cpu" }
        (some (fileText (traceFile .noStacks wakeupAndSync))) = 0 ∧
      validateMain (loadsTrace .noStacks wakeupAndSync) (fun _ => true) { expectEventsMin := 3 }
        (some (fileText (traceFile .noStacks wakeupAndSync))) = 1 := by
  have hread : ReadableTrace .noStacks wakeupAndSync :=
    readableTrace_of_nameless printableFrames_noStacks (by decide)
  have haccepts : ValidateArgs.Accepts
      { expectEventsMin := 2, requireCategories := pyStr "gpu_sync,cpu" }
      (realRecords .noStacks wakeupAndSync) :=
    ⟨by decide, by decide, .inr ⟨_, List.mem_of_getElem? (i := 1) rfl⟩, .inr fun _ hm => nomatch hm⟩
  refine ⟨(validateMain_traceFile hread hread.loadsDocument _ _).1.mpr haccepts,
    (validateMain_traceFile hread hread.loadsDocument _ _).2.1.mpr fun haccepts => ?_⟩
  exact absurd haccepts.enough (by decide)

end UnifiedTrace
