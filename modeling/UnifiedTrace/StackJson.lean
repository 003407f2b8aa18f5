import UnifiedTrace.Blazesym
import UnifiedTrace.Printf

/-!
# Stacks in the Output

`json_escape`, `read_stack_addrs` and `emit_stack_json` of `src/user/unified_trace.c`. What
`emit_stack_json` prints is given as the list of the array's elements, with the text of each
as a function of the element. The pinned stack map, the symbolizer and the outcome of the
allocation are part of the environment, one answer for each event of the output loop.
-/

namespace UnifiedTrace

open Printf

/-! ### Escaping -/

/-- `"\\u%04x"`. -/
def unicodeEscape (c : UInt8) : Bytes := ascii "\\u" ++ zeroPad 4 (hex c.toNat)

/-- The loop of `json_escape`: what it writes from index `di` on. -/
def jsonEscapeLoop (dstLen : ℕ) (di : ℕ) : Bytes → Bytes
  | [] => []
  | c :: src =>
      if di + 2 < dstLen then
        if c = 0x22 ∨ c = 0x5C then
          if di + 3 ≥ dstLen then [] else 0x5C :: c :: jsonEscapeLoop dstLen (di + 2) src
        else if c < 0x20 then
          if di + 7 ≥ dstLen then []
          else unicodeEscape c ++ jsonEscapeLoop dstLen (di + 6) src
        else
          c :: jsonEscapeLoop dstLen (di + 1) src
      else
        []

/-- `json_escape`: the string it leaves in `dst`, if it writes anything. -/
def jsonEscape (dstLen : ℕ) (src : Bytes) : Option Bytes :=
  if dstLen = 0 then none else some (jsonEscapeLoop dstLen 0 src)

/-! ### Stacks -/

/-- `PERF_MAX_STACK_DEPTH`. -/
def perfMaxStackDepth : ℕ := 127

/-- What `emit_stack_json` works with. The options and handles are set once; the allocator
and the symbolizer answer anew at each event, which `i` counts. -/
structure StackEnv where
  /-- The contents of `stack_traces`, if the map was found. -/
  stackMap : Option (UInt32 → Option (Fin perfMaxStackDepth → UInt64))
  symbolizeEnabled : Bool
  /-- Whether `symbolizer` is not NULL. -/
  symbolizer : Bool
  maxStackFramesInJson : ℕ
  /-- Whether `calloc` succeeds. -/
  calloc : (i : ℕ) → Bool
  /-- The symbolizer's answer for a process and addresses. -/
  symbolize : (i : ℕ) → UInt32 → List UInt64 → Option (List Symbolized)

/-- Without a stack map and a symbolizer. -/
def StackEnv.noStacks : StackEnv where
  stackMap := none
  symbolizeEnabled := false
  symbolizer := false
  maxStackFramesInJson := 12
  calloc := fun _ => true
  symbolize := fun _ _ _ => none

/-- `read_stack_addrs`: the addresses it writes into `out`. -/
def readStackAddrs (env : StackEnv) (stackId : Int32) (outCap : ℕ) : List UInt64 :=
  match env.stackMap with
  | none => []
  | some lookup =>
      if stackId < 0 then []
      else
        match lookup stackId.toUInt32 with
        | none => []
        | some stack => ((List.ofFn stack).takeWhile (· ≠ 0)).take outCap

/-- An element of a printed stack. -/
inductive StackFrame
  /-- A raw address. -/
  | addr (a : UInt64)
  /-- A resolved frame. -/
  | resolved (frame : BswFrame)

/-- `emit_stack_json`: the elements of the array it prints. -/
def emitStackJson (env : StackEnv) (i : ℕ) (stackId : Int32) (pid : UInt32) :
    List StackFrame :=
  let all := readStackAddrs env stackId perfMaxStackDepth
  if all.length = 0 then
    []
  else
    let addrs :=
      if all.length > env.maxStackFramesInJson then all.take env.maxStackFramesInJson else all
    if ¬ env.symbolizeEnabled ∨ ¬ env.symbolizer then
      addrs.map .addr
    else if ¬ env.calloc i then
      []
    else
      -- blazesym can expand inlined frames, so the array has headroom
      let frames := List.replicate (addrs.length * 4) (BswFrame.zeroed 0)
      let buf := bswResolve (env.symbolize i pid addrs) addrs frames
      (buf.out.take buf.written).map .resolved

/-- The buffer `esc_sym`, `esc_file` or `esc_lib` after `json_escape`. -/
def escapedField (s : Bytes) : Bytes := (jsonEscape (bswStrMax * 2) s).getD []

/-- The text of an element. -/
def StackFrame.text : StackFrame → Bytes
  | addr a => ascii "\x7b\"addr\":\"0x" ++ hex a.toNat ++ ascii "\"\x7d"
  | resolved frame =>
      let sym := cString frame.sym
      let escSym := escapedField (if sym.length ≠ 0 then sym else ascii "??")
      let escFile := escapedField (cString frame.file)
      let escLib := escapedField (cString frame.lib)
      ascii "\x7b\"sym\":\"" ++ escSym ++ ascii "\"" ++
        (if escFile.length ≠ 0 then ascii ",\"file\":\"" ++ escFile ++ ascii "\"" else []) ++
        (if frame.line ≠ 0 then ascii ",\"line\":" ++ decimal frame.line.toNat else []) ++
        (if escLib.length ≠ 0 then ascii ",\"lib\":\"" ++ escLib ++ ascii "\"" else []) ++
        (if frame.inlined ≠ 0 then ascii ",\"inlined\":1" else []) ++
        ascii "\x7d"

/-- The text of a printed stack. -/
def stackText (frames : List StackFrame) : Bytes :=
  ascii "[" ++ List.intercalate (ascii ",") (frames.map StackFrame.text) ++ ascii "]"

end UnifiedTrace
