import UnifiedTrace.ChromeTrace
import UnifiedTrace.StackText

/-!
# Records are JSON

The text of every record is an object. Task names are printed into it as they are, between
two quotation marks; everything else in it is fixed text, numbers, and escaped names. So a
record reads as what it says exactly if its task name needs no escape.

## Main results

* `ShowsBetween.reads`: a record reads as its members, whatever its task name denotes.
* `Record.exists_reads`: a record whose task name needs no escape reads as an object that
  gives the name back.
* `Record.isPlain_of_reads`: a record that reads as an object giving its task name back has
  a name that needs no escape.
-/

namespace UnifiedTrace

open Binary64 Json Printf Utf8

/-! ### Task names in records -/

/-- Where a record shows a task name: the key in its arguments, and the string. -/
def Record.named : Record → Option (Bytes × Bytes)
  | cpuThreadName _ _ comm => some (ascii "name", ascii "CPU [" ++ (comm.bytes ++ ascii "]"))
  | begin _ _ _ _ comm _ => some (ascii "comm", comm.bytes)
  | complete r => some (ascii "comm", r.comm.bytes)
  | _ => none

/-- The value read for the record gives back the task name. -/
def Record.Decodes (r : Record) (v : Json.Value) : Prop :=
  ∀ key text, r.named = some (key, text) →
    ∃ args, v.HasMember (ascii "args") args ∧ args.HasMember key (.str (units text))

/-- The task name in the record needs no escape. -/
def Record.IsPlain (r : Record) : Prop := ∀ key text, r.named = some (key, text) → Json.IsPlain text

/-- Apart from what its task name does to it, the record is as the output loop makes it from
ASCII names. -/
def Record.WellMade : Record → Prop
  | cpuThreadName _ _ comm => IsAscii comm.bytes
  | begin _ _ _ _ comm stack =>
      IsAscii comm.bytes ∧ ∀ frames ∈ stack, ∀ frame ∈ frames, frame.IsAscii
  | complete r => Json.IsPlain r.name ∧ Json.IsPlain r.cat ∧ IsAscii r.comm.bytes ∧
      ∀ frames ∈ r.stack, ∀ frame ∈ frames, frame.IsAscii
  | _ => True

/-- The stack a record shows. -/
def Record.stack? : Record → Option (List StackFrame)
  | begin _ _ _ _ _ stack => stack
  | complete r => r.stack
  | _ => none

/-- The process of a record. -/
def Record.pid : Record → UInt32
  | cpuThreadName pid _ _ | gpuThreadName pid _ => pid
  | begin _ pid _ _ _ _ | finish _ pid _ _ _ | instant _ pid _ => pid
  | complete r => r.pid

/-- The name and the category of a CUDA record need no escape. -/
def Record.NamesPlain : Record → Prop
  | complete r => Json.IsPlain r.name ∧ Json.IsPlain r.cat
  | _ => True

/-- The names the loop gives to operations need no escape. -/
theorem Record.WellMade.namesPlain {r : Record} (h : r.WellMade) : r.NamesPlain := by
  cases r with
  | complete r => exact ⟨h.1, h.2.1⟩
  | _ => trivial

/-- The stack of such a record is ASCII. -/
theorem Record.WellMade.isAscii_stack {r : Record} (h : r.WellMade) :
    ∀ frames ∈ r.stack?, ∀ frame ∈ frames, frame.IsAscii := by
  cases r with
  | begin => exact h.2
  | complete r => exact h.2.2.2
  | _ => exact fun _ hframes => absurd hframes (by simp [stack?])

/-! ### The shape of a record -/

/-- The indentation of records. -/
def indent : Bytes := ascii "    "

/-- A record without its indentation. -/
def Record.body (r : Record) : Bytes := r.text.drop 4

/-- The body of a record is what follows its indentation. -/
theorem Record.body_eq {r : Record} {t : Bytes} (h : r.text = indent ++ t) : r.body = t := by
  rw [body, h]
  rfl

/-- A text that starts with the indentation and a brace is indented and opens an object. -/
theorem exists_open {lit tail : Bytes} (h : lit.take 5 = indent ++ [0x7B]) :
    ∃ t, lit ++ tail = indent ++ 0x7B :: t := by
  refine ⟨lit.drop 5 ++ tail, ?_⟩
  rw [← List.take_append_drop 5 lit, h, List.append_assoc, List.append_assoc]
  rfl

/-- Every record is an indented object. -/
theorem Record.exists_text (r : Record) : ∃ t, r.text = indent ++ 0x7B :: t := by
  cases r with
  | complete r =>
      simp only [text, CompleteRecord.text, List.flatten_cons]
      exact exists_open (by decide)
  | _ =>
      simp only [text, List.append_assoc]
      exact exists_open (by decide)

/-- A record is its indentation and its body. -/
theorem Record.text_eq (r : Record) : r.text = indent ++ r.body := by
  obtain ⟨t, ht⟩ := r.exists_text
  rw [Record.body_eq ht, ht]

/-- The body of a record starts with its brace. -/
theorem Record.startsToken_body (r : Record) (rest : Bytes) : StartsToken (r.body ++ rest) := by
  obtain ⟨t, ht⟩ := r.exists_text
  rw [Record.body_eq ht]
  exact startsToken_cons (by decide) _

/-- A text is an object whose arguments show a string under a key, unescaped. -/
def Shows (body key text : Bytes) : Prop :=
  ∃ pre argsPre argsPost : List Field, ascii "args" ∉ pre.map Field.key ∧
    key ∉ (argsPre ++ argsPost).map Field.key ∧ Json.IsPlain key ∧
    body = objectText .spaced pre (ascii "args")
      (objectText .spaced argsPre key (quoted text) argsPost) []

/-- A string that needs no escape is read back. -/
theorem Shows.exists_reads {body key text : Bytes} (h : Shows body key text)
    (hplain : Json.IsPlain text) : ∃ v, Reads body v ∧
      ∃ args, v.HasMember (ascii "args") args ∧ args.HasMember key (.str (units text)) := by
  obtain ⟨pre, argsPre, argsPost, hpre, hargs, hkey, rfl⟩ := h
  have hstr : Reads (quoted text) (.str (units text)) := .str (.of_isPlain hplain)
  refine ⟨_, .object pre [] (by decide) (.object argsPre argsPost hkey hstr), _,
    hasMember_obj _ ?_, hasMember_obj _ hargs⟩
  rwa [List.append_nil]

/-- A string that is read back needs no escape. -/
theorem Shows.isPlain {body key text rest s : Bytes} {v args : Json.Value}
    (h : Shows body key text) (hascii : UnifiedTrace.IsAscii text)
    (hread : ReadsValue (body ++ rest) v s) (hargs : v.HasMember (ascii "args") args)
    (hstr : args.HasMember key (.str (units text))) : Json.IsPlain text := by
  obtain ⟨pre, argsPre, argsPost, -, -, hkey, rfl⟩ := h
  obtain ⟨s₁, hobj⟩ := hread.object_inv pre [] (by decide)
    (startsToken_objectText ..) hargs
  obtain ⟨s₂, hquoted⟩ := hobj.object_inv argsPre argsPost hkey
    (startsToken_quoted text) hstr
  rw [quoted_append] at hquoted
  obtain ⟨u, hu, hchars⟩ := hquoted.str_inv
  obtain rfl := Json.Value.str.inj hu
  exact isPlain_of_readsChars hascii hchars

/-- A string that is shown unescaped is UTF-8 if the text is. -/
theorem Shows.isUtf8 {body key text rest : Bytes} (h : Shows body key text)
    (hbody : IsUtf8 (body ++ rest)) : IsUtf8 text := by
  obtain ⟨pre, argsPre, argsPost, -, -, hkey, rfl⟩ := h
  have hquoted := isUtf8_of_objectText hkey (isUtf8_of_objectText (by decide) hbody)
  rw [quoted_append, isUtf8_cons_iff (by decide), isUtf8_append_cons_iff (by decide)] at hquoted
  exact hquoted.1

/-- A text is an object whose arguments show a string under a key, unescaped, after some members
and before others. -/
def ShowsBetween (body : Bytes) (pre argsPre : List Field) (key text : Bytes)
    (more : List (List UInt16 × Json.Value)) : Prop :=
  ∃ post : List Field, post.map Field.member = more ∧
    body = objectText .spaced pre (ascii "args")
      (objectText .spaced argsPre key (quoted text) post) []

section ShowsBetween

variable {body key text : Bytes} {pre argsPre : List Field}
  {more : List (List UInt16 × Json.Value)}

/-- The string is shown if its key is nowhere else among the arguments. -/
theorem ShowsBetween.shows (h : ShowsBetween body pre argsPre key text more)
    (hpre : ascii "args" ∉ pre.map Field.key) (hkey : Json.IsPlain key)
    (hargs : units key ∉ (argsPre.map Field.member ++ more).map Prod.fst) :
    Shows body key text := by
  obtain ⟨post, rfl, hbody⟩ := h
  refine ⟨pre, argsPre, post, hpre, fun hmem => hargs ?_, hkey, hbody⟩
  obtain ⟨f, hf, rfl⟩ := List.mem_map.mp hmem
  rw [← List.map_append, List.map_map]
  exact List.mem_map.mpr ⟨f, hf, rfl⟩

/-- The text is read as the object with these members. -/
theorem ShowsBetween.reads (h : ShowsBetween body pre argsPre key text more)
    (hkey : Json.IsPlain key) {u : List UInt16} (hu : Denotes text u) :
    Reads body (.obj (pre.map Field.member ++ [(units (ascii "args"),
      .obj (argsPre.map Field.member ++ (units key, .str u) :: more))])) := by
  obtain ⟨post, rfl, rfl⟩ := h
  exact .object pre [] (by decide) (.object argsPre post hkey (.str hu))

end ShowsBetween

/-! ### Members of records -/

/-- A member whose value is a decimal number. -/
def numKey (key : Bytes) (n : ℕ) (hkey : Json.IsPlain key) : Field :=
  numField key (decimal n) hkey (isNumber_decimal n)

/-- A member whose value is a time in microseconds. -/
def timeKey (key : Bytes) (ns : UInt64) (hkey : Json.IsPlain key) : Field :=
  numField key (micros ns) hkey (isNumber_fixed 3 _)

/-- The members of a `thread_name` record before its arguments. -/
def nameFields (pid tid : UInt32) : List Field :=
  [strField (ascii "name") (ascii "thread_name") (by decide) (by decide),
    strField (ascii "ph") (ascii "M") (by decide) (by decide),
    numKey (ascii "pid") pid.toNat (by decide), numKey (ascii "tid") tid.toNat (by decide)]

/-- The members of a record of a CPU event before its arguments. -/
def cpuFields (name ph : Bytes) (hname : Json.IsPlain name) (hph : Json.IsPlain ph) (ts : UInt64)
    (pid tid : UInt32) : List Field :=
  [strField (ascii "name") name (by decide) hname,
    strField (ascii "cat") (ascii "cpu") (by decide) (by decide),
    strField (ascii "ph") ph (by decide) hph, timeKey (ascii "ts") ts (by decide),
    numKey (ascii "pid") pid.toNat (by decide), numKey (ascii "tid") tid.toNat (by decide)]

/-- A printed stack reads as the value. -/
def ReadsStack : Option (List StackFrame) → Option Json.Value → Prop :=
  Option.Rel fun frames v => Reads (stackText frames) v

/-- The member for the stack of a record. -/
def stackMembers (stack : Option Json.Value) : List (List UInt16 × Json.Value) :=
  stack.elim [] fun v => [(units (ascii "stack"), v)]

/-- The stack of a record. -/
theorem isMore_stackArg {stack : Option (List StackFrame)} {v : Option Json.Value}
    (h : ReadsStack stack v) : IsMore .spaced (stackMembers v) (stackArg stack) := by
  cases h with
  | none => exact .nil
  | some hv => exact .of_reads (ascii "stack") (by decide) hv rfl

/-- A stack of ASCII names reads as a value. -/
theorem exists_readsStack {stack : Option (List StackFrame)}
    (h : ∀ frames ∈ stack, ∀ frame ∈ frames, frame.IsAscii) : ∃ v, ReadsStack stack v := by
  cases stack with
  | none => exact ⟨none, .none⟩
  | some frames =>
      obtain ⟨v, hv⟩ := exists_reads_stackText (h frames rfl)
      exact ⟨some v, .some hv⟩

/-- A member whose value is an address or a handle. -/
def hexMember (key : Bytes) (n : UInt64) : List UInt16 × Json.Value :=
  (units key, .str (units (ascii "0x" ++ hex n.toNat)))

/-- An address is a further member, in hexadecimal digits. -/
theorem isMore_hex {t : Bytes} (key : Bytes) (n : UInt64) (hkey : Json.IsPlain key)
    (ht : t = 0x2C :: 0x20 :: (keyText .spaced key ++ quoted (ascii "0x" ++ hex n.toNat))) :
    IsMore .spaced [hexMember key n] t :=
  .of_reads key hkey (hexField key n.toNat hkey).reads ht

/-- A size in units of `2 ^ k` bytes with two digits, rounded once as long as the size itself is a
double. -/
def sizeIn (k : ℕ) (size : UInt64) : Bytes :=
  if size.toNat < 2 ^ precision then point 2 (roundHalfEven (size.toNat * 100) (2 ^ k))
  else fixed 2 (.ofNat size.toNat / .ofNat (2 ^ k))

/-- A size in the largest unit that it reaches. -/
def sizeText (size : UInt64) : Bytes :=
  if size ≥ 1024 * 1024 * 1024 then sizeIn 30 size ++ ascii " GB"
  else if size ≥ 1024 * 1024 then sizeIn 20 size ++ ascii " MB"
  else if size ≥ 1024 then sizeIn 10 size ++ ascii " KB"
  else u64 size ++ ascii " B"

/-- Sizes are divided exactly. -/
theorem fixed_eq_sizeIn {k : ℕ} (hk : k < precision) (size : UInt64) :
    fixed 2 (.ofNat size.toNat / .ofNat (2 ^ k)) = sizeIn k size := by
  rw [sizeIn]
  split
  · rename_i hsize
    exact fixed_ofNat_div_two_pow 2 hsize hk
  · rfl

/-- The units of a size are powers of two. -/
theorem ofNat_units : (.ofNat 1024 : Double) = .ofNat (2 ^ 10) ∧
    (.ofNat 1024 * .ofNat 1024 : Double) = .ofNat (2 ^ 20) ∧
    (.ofNat 1024 * .ofNat 1024 * .ofNat 1024 : Double) = .ofNat (2 ^ 30) := by
  have hsquare : (.ofNat 1024 * .ofNat 1024 : Double) = .ofNat (1024 * 1024) :=
    Double.ofNat_mul_ofNat (by decide) (by decide)
  refine ⟨rfl, hsquare, ?_⟩
  rw [hsquare]
  exact Double.ofNat_mul_ofNat (by decide) (by decide)

/-- The members for the size of a record. -/
def sizeMembers (size : UInt64) : List (List UInt16 × Json.Value) :=
  [(units (ascii "size_bytes"), .num (u64 size)),
    (units (ascii "size"), .str (units (sizeText size)))]

/-- The size of a record. -/
theorem isMore_sizeArgs (size : UInt64) : IsMore .spaced (sizeMembers size) (sizeArgs size) := by
  have hnumber : IsMore .spaced [(units (ascii "size_bytes"), .num (u64 size))]
      (ascii ", \"size_bytes\": " ++ u64 size) :=
    .of_reads (ascii "size_bytes") (by decide) (.num (isNumber_decimal _)) rfl
  have hunit : ∀ t unit : Bytes, Json.IsPlain t → Json.IsPlain unit →
      IsMore .spaced [(units (ascii "size"), .str (units (t ++ unit)))]
        (ascii ", \"size\": \"" ++ t ++ (unit ++ ascii "\"")) := by
    intro t unit ht hunit
    refine .of_reads (ascii "size") (by decide)
      (.str (.of_isPlain (isPlain_append ht hunit))) ?_
    rw [quoted, List.append_assoc, List.append_assoc]
    rfl
  refine hnumber.append ?_
  obtain ⟨hkilo, hmega, hgiga⟩ := ofNat_units
  rw [sizeText, ← fixed_eq_sizeIn (by decide), ← fixed_eq_sizeIn (by decide),
    ← fixed_eq_sizeIn (by decide), ← hgiga, ← hmega, ← hkilo]
  split_ifs
  · exact hunit _ (ascii " GB") (isPlain_fixed _ _) (by decide)
  · exact hunit _ (ascii " MB") (isPlain_fixed _ _) (by decide)
  · exact hunit _ (ascii " KB") (isPlain_fixed _ _) (by decide)
  · exact hunit _ (ascii " B") (isPlain_decimal _) (by decide)

/-! ### The records -/

/-- The name of a CPU row. -/
theorem showsBetween_cpuThreadName (pid tid : UInt32) (comm : Comm) :
    ShowsBetween (Record.cpuThreadName pid tid comm).body (nameFields pid tid) []
      (ascii "name") (ascii "CPU [" ++ (comm.bytes ++ ascii "]")) [] := by
  refine ⟨[], rfl, Record.body_eq ?_⟩
  simp only [Record.text, objectText, nameFields, leadText_cons, Field.memberText, keyText,
    quoted, numKey, numField, strField, List.append_assoc, List.cons_append]
  rfl

/-- The name of a GPU row. -/
theorem showsBetween_gpuThreadName (pid tid : UInt32) :
    ShowsBetween (Record.gpuThreadName pid tid).body (nameFields pid tid) [] (ascii "name")
      (ascii "GPU (CUDA)") [] := by
  refine ⟨[], rfl, Record.body_eq ?_⟩
  simp only [Record.text, objectText, nameFields, leadText_cons, Field.memberText, keyText,
    quoted, numKey, numField, strField, List.append_assoc, List.cons_append]
  rfl

/-- The members of the record of a begin of a span before its arguments. -/
def beginFields (ts : UInt64) (pid tid : UInt32) : List Field :=
  cpuFields (ascii "On-CPU") (ascii "B") (by decide) (by decide) ts pid tid

/-- A name for the text of a time, so that comparing two texts of a record does not compute it. -/
theorem exists_micros (ns : UInt64) : ∃ time, micros ns = time := ⟨_, rfl⟩

/-- The begin of a span. -/
theorem showsBetween_begin (ts : UInt64) (pid tid cpu : UInt32) (comm : Comm)
    {stack : Option (List StackFrame)} {v : Option Json.Value} (h : ReadsStack stack v) :
    ShowsBetween (Record.begin ts pid tid cpu comm stack).body (beginFields ts pid tid)
      [numKey (ascii "cpu") cpu.toNat (by decide)] (ascii "comm") comm.bytes
      (stackMembers v) := by
  obtain ⟨post, hpost, hstack⟩ := isMore_stackArg h
  obtain ⟨start, hstart⟩ := exists_micros ts
  refine ⟨post, hpost, Record.body_eq ?_⟩
  simp only [Record.text, objectText, beginFields, cpuFields, leadText_cons, Field.memberText,
    keyText, quoted, numKey, timeKey, numField, strField, hstack, List.append_assoc,
    List.cons_append]
  rw [hstart]
  rfl

/-- The members of a CUDA record before its arguments. -/
def cudaFields (r : CompleteRecord) (hname : Json.IsPlain r.name) (hcat : Json.IsPlain r.cat) :
    List Field :=
  [strField (ascii "name") r.name (by decide) hname,
    strField (ascii "cat") r.cat (by decide) hcat,
    strField (ascii "ph") (ascii "X") (by decide) (by decide),
    timeKey (ascii "ts") r.ts (by decide),
    timeKey (ascii "dur") r.dur (by decide), numKey (ascii "pid") r.pid.toNat (by decide),
    numKey (ascii "tid") r.tid.toNat (by decide)]

/-- The members of the arguments of a CUDA record after the task name. -/
def cudaMembers (r : CompleteRecord) (stack : Option Json.Value) :
    List (List UInt16 × Json.Value) :=
  r.streamId.elim [] (fun s => [hexMember (ascii "stream_id") s]) ++
    ((if r.async = true then [(units (ascii "async"), .bool true)] else []) ++
    (r.size.elim [] sizeMembers ++
    (r.ptr.elim [] (fun p => [hexMember (ascii "ptr") p]) ++
    stackMembers stack)))

/-- A CUDA record. -/
theorem showsBetween_complete {r : CompleteRecord} (hname : Json.IsPlain r.name)
    (hcat : Json.IsPlain r.cat) {v : Option Json.Value} (h : ReadsStack r.stack v) :
    ShowsBetween (Record.complete r).body (cudaFields r hname hcat)
      [numField (ascii "ret") (signed r.ret.toInt) (by decide) (isNumber_signed _)]
      (ascii "comm") r.comm.bytes (cudaMembers r v) := by
  have hstream : ∀ s ∈ r.streamId, IsMore .spaced [hexMember (ascii "stream_id") s]
      (ascii ", \"stream_id\": \"0x" ++ hex s.toNat ++ ascii "\"") := by
    intro s _
    refine isMore_hex (ascii "stream_id") s (by decide) ?_
    rw [quoted, List.append_assoc, List.append_assoc]
    rfl
  have hasync : IsMore .spaced [(units (ascii "async"), .bool true)]
      (ascii ", \"async\": true") :=
    .of_reads (ascii "async") (by decide) .true rfl
  have hptr : ∀ p ∈ r.ptr, IsMore .spaced [hexMember (ascii "ptr") p]
      (ascii ", \"ptr\": \"0x" ++ hex p.toNat ++ ascii "\"") := by
    intro p _
    refine isMore_hex (ascii "ptr") p (by decide) ?_
    rw [quoted, List.append_assoc, List.append_assoc]
    rfl
  obtain ⟨post, hpost, htext⟩ := (IsMore.elim r.streamId hstream).append
    ((hasync.ite (r.async = true)).append
      ((IsMore.elim r.size fun size _ => isMore_sizeArgs size).append
        ((IsMore.elim r.ptr hptr).append (isMore_stackArg h))))
  obtain ⟨start, hstart⟩ := exists_micros r.ts
  obtain ⟨span, hspan⟩ := exists_micros r.dur
  refine ⟨post, hpost, Record.body_eq ?_⟩
  rw [objectText, objectText, ← htext]
  simp only [Record.text, CompleteRecord.text, List.flatten_cons, List.flatten_nil, cudaFields,
    leadText_cons, Field.memberText, keyText, quoted, numKey, timeKey, numField, strField,
    List.append_assoc, List.cons_append]
  rw [hstart, hspan]
  rfl

/-- The keys of the arguments of a CUDA record after the task name. -/
def cudaKeys : List Bytes :=
  [ascii "stream_id", ascii "async", ascii "size_bytes", ascii "size", ascii "ptr", ascii "stack"]

/-- A member of an optional group comes from what is present. -/
theorem exists_of_mem_elim {α β : Type} {o : Option α} {f : α → List β} {b : β}
    (h : b ∈ o.elim [] f) : ∃ a, b ∈ f a := by
  cases o with
  | none => exact absurd h List.not_mem_nil
  | some a => exact ⟨a, h⟩

/-- The arguments of a CUDA record have the keys of the format strings. -/
theorem fst_mem_of_mem_cudaMembers {r : CompleteRecord} {v : Option Json.Value}
    {m : List UInt16 × Json.Value} (h : m ∈ cudaMembers r v) : m.1 ∈ cudaKeys.map units := by
  have hkey : ∀ key ∈ cudaKeys, units key ∈ cudaKeys.map units :=
    fun _ hkey => List.mem_map_of_mem hkey
  simp only [cudaMembers, List.mem_append] at h
  rcases h with h | h | h | h | h
  · obtain ⟨s, hm⟩ := exists_of_mem_elim h
    obtain rfl := List.mem_singleton.mp hm
    exact hkey (ascii "stream_id") (by decide)
  · split at h
    · obtain rfl := List.mem_singleton.mp h
      exact hkey (ascii "async") (by decide)
    · exact absurd h List.not_mem_nil
  · obtain ⟨size, hm⟩ := exists_of_mem_elim h
    rcases List.mem_cons.mp hm with rfl | hm
    · exact hkey (ascii "size_bytes") (by decide)
    · obtain rfl := List.mem_singleton.mp hm
      exact hkey (ascii "size") (by decide)
  · obtain ⟨p, hm⟩ := exists_of_mem_elim h
    obtain rfl := List.mem_singleton.mp hm
    exact hkey (ascii "ptr") (by decide)
  · obtain ⟨v, hm⟩ := exists_of_mem_elim h
    obtain rfl := List.mem_singleton.mp hm
    exact hkey (ascii "stack") (by decide)

/-- The end of a span. -/
theorem reads_finish (ts : UInt64) (pid tid : UInt32) (duration state : UInt64) :
    Reads (Record.finish ts pid tid duration state).body
      (.obj ((cpuFields (ascii "On-CPU") (ascii "E") (by decide) (by decide) ts pid tid).map
        Field.member ++ [(units (ascii "args"), .obj
          [(units (ascii "duration_us"), .num (micros duration)),
            (units (ascii "state"), .num (u64 state))])])) := by
  have htext : (Record.finish ts pid tid duration state).body = objectText .spaced
      (cpuFields (ascii "On-CPU") (ascii "E") (by decide) (by decide) ts pid tid) (ascii "args")
      (objectText .spaced [timeKey (ascii "duration_us") duration (by decide)] (ascii "state")
        (u64 state) []) [] := by
    obtain ⟨start, hstart⟩ := exists_micros ts
    obtain ⟨span, hspan⟩ := exists_micros duration
    refine Record.body_eq ?_
    simp only [Record.text, objectText, cpuFields, leadText_cons, Field.memberText, keyText,
      quoted, numKey, timeKey, numField, strField, List.append_assoc, List.cons_append]
    rw [hstart, hspan]
    rfl
  rw [htext]
  exact .object _ [] (by decide) (.object _ [] (by decide) (.num (isNumber_decimal _)))

/-- A wakeup. -/
theorem reads_instant (ts : UInt64) (pid tid : UInt32) :
    Reads (Record.instant ts pid tid).body
      (.obj ((cpuFields (ascii "Wakeup") (ascii "i") (by decide) (by decide) ts pid tid).map
        Field.member ++ [(units (ascii "s"), .str (units (ascii "t")))])) := by
  have htext : (Record.instant ts pid tid).body = objectText .spaced
      (cpuFields (ascii "Wakeup") (ascii "i") (by decide) (by decide) ts pid tid) (ascii "s")
      (quoted (ascii "t")) [] := by
    obtain ⟨start, hstart⟩ := exists_micros ts
    refine Record.body_eq ?_
    simp only [Record.text, objectText, cpuFields, leadText_cons, Field.memberText, keyText,
      quoted, numKey, timeKey, numField, strField, List.append_assoc, List.cons_append]
    rw [hstart]
    rfl
  rw [htext]
  exact .object _ [] (by decide) (.str (.of_isPlain (by decide)))

/-! ### Task names -/

/-- The name of a CPU row. -/
theorem shows_cpuThreadName (pid tid : UInt32) (comm : Comm) :
    Shows (Record.cpuThreadName pid tid comm).body (ascii "name")
      (ascii "CPU [" ++ (comm.bytes ++ ascii "]")) := by
  refine (showsBetween_cpuThreadName pid tid comm).shows ?_ (by decide) (by simp)
  show ascii "args" ∉ [ascii "name", ascii "ph", ascii "pid", ascii "tid"]
  decide

/-- The begin of a span. -/
theorem shows_begin (ts : UInt64) (pid tid cpu : UInt32) (comm : Comm)
    {stack : Option (List StackFrame)} {v : Option Json.Value} (h : ReadsStack stack v) :
    Shows (Record.begin ts pid tid cpu comm stack).body (ascii "comm") comm.bytes := by
  refine (showsBetween_begin ts pid tid cpu comm h).shows ?_ (by decide) ?_
  · show ascii "args" ∉ [ascii "name", ascii "cat", ascii "ph", ascii "ts", ascii "pid",
      ascii "tid"]
    decide
  · intro hmem
    obtain ⟨m, hm, hkey⟩ := List.mem_map.mp hmem
    rcases List.mem_cons.mp hm with rfl | hm
    · exact absurd (units_injective hkey) (by decide : ascii "cpu" ≠ ascii "comm")
    · obtain ⟨v, hm⟩ := exists_of_mem_elim hm
      obtain rfl := List.mem_singleton.mp hm
      exact absurd (units_injective hkey) (by decide : ascii "stack" ≠ ascii "comm")

/-- A CUDA record. -/
theorem shows_complete {r : CompleteRecord} (hname : Json.IsPlain r.name)
    (hcat : Json.IsPlain r.cat) {v : Option Json.Value} (h : ReadsStack r.stack v) :
    Shows (Record.complete r).body (ascii "comm") r.comm.bytes := by
  refine (showsBetween_complete hname hcat h).shows ?_ (by decide) ?_
  · show ascii "args" ∉ [ascii "name", ascii "cat", ascii "ph", ascii "ts", ascii "dur",
      ascii "pid", ascii "tid"]
    decide
  · intro hmem
    obtain ⟨m, hm, hkey⟩ := List.mem_map.mp hmem
    rcases List.mem_cons.mp hm with rfl | hm
    · exact absurd (units_injective hkey) (by decide : ascii "ret" ≠ ascii "comm")
    · obtain ⟨key, hmem, hkey'⟩ := List.mem_map.mp (fst_mem_of_mem_cudaMembers hm)
      obtain rfl := units_injective (hkey'.trans hkey)
      exact absurd hmem (by decide : ascii "comm" ∉ cudaKeys)

/-- What a record shows of a task name, where it shows one. -/
theorem Record.shows {r : Record} (hnames : r.NamesPlain) {v : Option Json.Value}
    (hstack : ReadsStack r.stack? v) {key text : Bytes} (hnamed : r.named = some (key, text)) :
    Shows r.body key text := by
  cases r with
  | cpuThreadName pid tid comm =>
      obtain ⟨rfl, rfl⟩ := Prod.mk.inj (Option.some.inj hnamed)
      exact shows_cpuThreadName pid tid comm
  | begin ts pid tid cpu comm stack =>
      obtain ⟨rfl, rfl⟩ := Prod.mk.inj (Option.some.inj hnamed)
      exact shows_begin ts pid tid cpu comm hstack
  | complete r =>
      obtain ⟨rfl, rfl⟩ := Prod.mk.inj (Option.some.inj hnamed)
      exact shows_complete hnames.1 hnames.2 hstack
  | gpuThreadName | finish | instant => exact absurd hnamed (by simp [named])

/-- The task name in a record made from ASCII names. -/
theorem Record.WellMade.shows {r : Record} (h : r.WellMade) {key text : Bytes}
    (hnamed : r.named = some (key, text)) : Shows r.body key text ∧ IsAscii text := by
  obtain ⟨v, hv⟩ := exists_readsStack h.isAscii_stack
  refine ⟨r.shows h.namesPlain hv hnamed, ?_⟩
  cases r with
  | cpuThreadName pid tid comm =>
      obtain ⟨rfl, rfl⟩ := Prod.mk.inj (Option.some.inj hnamed)
      exact isAscii_append (by decide) (isAscii_append h (by decide))
  | begin ts pid tid cpu comm stack =>
      obtain ⟨rfl, rfl⟩ := Prod.mk.inj (Option.some.inj hnamed)
      exact h.1
  | complete r =>
      obtain ⟨rfl, rfl⟩ := Prod.mk.inj (Option.some.inj hnamed)
      exact h.2.2.1
  | gpuThreadName | finish | instant => exact absurd hnamed (by simp [named])

/-- **A record whose task name needs no escape reads as an object that gives it back.** -/
theorem Record.exists_reads {r : Record} (h : r.WellMade) (hplain : r.IsPlain) :
    ∃ v, Reads r.body v ∧ r.Decodes v := by
  cases hnamed : r.named with
  | none =>
      have hreads : ∃ v, Reads r.body v := by
        cases r with
        | gpuThreadName pid tid =>
            exact ⟨_, (showsBetween_gpuThreadName pid tid).reads (by decide)
              (.of_isPlain (by decide))⟩
        | finish ts pid tid duration state => exact ⟨_, reads_finish ts pid tid duration state⟩
        | instant ts pid tid => exact ⟨_, reads_instant ts pid tid⟩
        | cpuThreadName | begin | complete => exact absurd hnamed (by simp [named])
      obtain ⟨v, hv⟩ := hreads
      exact ⟨v, hv, fun _ _ hsome => absurd (hnamed.symm.trans hsome) (by simp)⟩
  | some p =>
      obtain ⟨key, text⟩ := p
      obtain ⟨v, hv, hargs⟩ := (h.shows hnamed).1.exists_reads (hplain key text hnamed)
      refine ⟨v, hv, fun key' text' hnamed' => ?_⟩
      obtain ⟨rfl, rfl⟩ := Prod.mk.inj (Option.some.inj (hnamed.symm.trans hnamed'))
      exact hargs

/-- **A record that reads as an object giving its task name back has a name that needs no
escape.** -/
theorem Record.isPlain_of_reads {r : Record} (h : r.WellMade) {rest s : Bytes} {v : Json.Value}
    (hread : ReadsValue (r.body ++ rest) v s) (hdecodes : r.Decodes v) : r.IsPlain := by
  intro key text hnamed
  obtain ⟨hshows, hascii⟩ := h.shows hnamed
  obtain ⟨args, hargs, hstr⟩ := hdecodes key text hnamed
  exact hshows.isPlain hascii hread hargs hstr

end UnifiedTrace
