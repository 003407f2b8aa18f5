import UnifiedTrace.Strtol
import UnifiedTrace.TraceCuda

/-!
# The Command Line

The option loop of `main` in `src/user/unified_trace.c`. Five options take a number that is
converted by `atoi`; the loop repairs three of them afterwards and takes the other two as they
come out, although `0` means "all processes" to the filters and "never" to `alarm`.

## Main results

* `parseArgs_eq_some_iff`, `foldl_apply`: an accepted command line is a list of options and
  their values, and the last value of each option is the one that is used.
* `acceptedMeansWhatItSays_iff`: what it takes for a command line to be rejected or to mean
  what it says.
-/

namespace UnifiedTrace

open Strtol

/-! ### The option loop -/

/-- The variables that the options set. -/
structure Options where
  targetPid : Int32
  duration : Int32
  outputFile : Bytes
  cudaLibPath : Option Bytes
  captureStacksCli : Bool
  symbolizeCli : Bool
  samplePeriodAsync : Int32
  samplePeriodSync : Int32
  maxStackFramesInJson : Int32
  deriving DecidableEq

/-- Before the loop. -/
def Options.default : Options where
  targetPid := 0
  duration := 10
  outputFile := ascii "trace.json"
  cudaLibPath := none
  captureStacksCli := true
  symbolizeCli := true
  samplePeriodAsync := 8
  samplePeriodSync := 1
  maxStackFramesInJson := 12

/-- An option that takes the word after it as its value. -/
inductive ValueOption
  | pid
  | duration
  | output
  | cudaLib
  | stackSampleAsync
  | stackSampleSync
  | maxStackFrames
  deriving DecidableEq

/-- An option without a value. -/
inductive Flag
  | noStacks
  | noSymbolize
  deriving DecidableEq

/-- The word of an option. -/
def ValueOption.word : ValueOption → Bytes
  | pid => ascii "--pid"
  | duration => ascii "--duration"
  | output => ascii "--output"
  | cudaLib => ascii "--cuda-lib"
  | stackSampleAsync => ascii "--stack-sample-async"
  | stackSampleSync => ascii "--stack-sample-sync"
  | maxStackFrames => ascii "--max-stack-frames"

/-- The word of a flag. -/
def Flag.word : Flag → Bytes
  | noStacks => ascii "--no-stacks"
  | noSymbolize => ascii "--no-symbolize"

/-- The option that a word is. -/
def valueOption? (arg : Bytes) : Option ValueOption :=
  [.pid, .duration, .output, .cudaLib, .stackSampleAsync, .stackSampleSync,
    .maxStackFrames].find? fun opt : ValueOption => arg = opt.word

/-- The flag that a word is. -/
def flag? (arg : Bytes) : Option Flag :=
  [.noStacks, .noSymbolize].find? fun flag : Flag => arg = flag.word

/-- `if (x <= 0) x = fallback`. -/
def atLeastOne (fallback x : Int32) : Int32 := if x ≤ 0 then fallback else x

/-- The branch of an option with its value. -/
def ValueOption.set (val : Bytes) (o : Options) : ValueOption → Options
  | pid => { o with targetPid := atoi val }
  | duration => { o with duration := atoi val }
  | output => { o with outputFile := val }
  | cudaLib => { o with cudaLibPath := some val }
  | stackSampleAsync => { o with samplePeriodAsync := atLeastOne 1 (atoi val) }
  | stackSampleSync => { o with samplePeriodSync := atLeastOne 1 (atoi val) }
  | maxStackFrames => { o with maxStackFramesInJson := atLeastOne 12 (atoi val) }

/-- The branch of a flag. -/
def Flag.set (o : Options) : Flag → Options
  | noStacks => { o with captureStacksCli := false }
  | noSymbolize => { o with symbolizeCli := false }

/-- The option loop over the words after `argv[0]`; `none` if it prints the usage and `main`
returns `1`. The last branch of the C code is reached by unknown words, and by options that
need a value when there is no word left. -/
def parseArgs (o : Options) : List Bytes → Option Options
  | [] => some o
  | arg :: rest =>
      match valueOption? arg, rest with
      | some opt, val :: rest => parseArgs (opt.set val o) rest
      | _, rest =>
          match flag? arg with
          | some flag => parseArgs (flag.set o) rest
          | none => none

/-- What is handed to `alarm`, which takes an `unsigned int`. -/
def Options.alarmSeconds (o : Options) : UInt32 := o.duration.toUInt32

/-- The filter of the scheduler tracer, which is only set when there is a target and the
`.rodata` map of the object file was found. -/
def Options.cpuTargetPid (o : Options) (rodata : Bool) : UInt32 :=
  if o.targetPid ≠ 0 then if rodata then o.targetPid.toUInt32 else 0 else 0

/-- `gpu_cfg`. -/
def Options.gpuCfg (o : Options) : CudaTracerCfg where
  targetPid := o.targetPid.toUInt32
  samplePeriodSync := o.samplePeriodSync.toUInt32
  samplePeriodAsync := o.samplePeriodAsync.toUInt32
  captureStacks := if o.captureStacksCli then 1 else 0

/-! ### Command lines as lists of options -/

/-- An option with its value, or a flag. -/
inductive ArgItem
  | value (opt : ValueOption) (val : Bytes)
  | flag (f : Flag)
  deriving DecidableEq

/-- How an item is written. -/
def ArgItem.words : ArgItem → List Bytes
  | value opt val => [opt.word, val]
  | flag f => [f.word]

/-- The words of a command line. -/
def cmdWords (items : List ArgItem) : List Bytes := items.flatMap ArgItem.words

/-- What an item sets. -/
def ArgItem.apply (o : Options) : ArgItem → Options
  | value opt val => opt.set val o
  | flag f => f.set o

/-- The value that an item gives to an option. -/
def ArgItem.value? (opt : ValueOption) : ArgItem → Option Bytes
  | value opt' val => if opt' = opt then some val else none
  | flag _ => none

/-- The value of the last occurrence of an option. -/
def lastValue (opt : ValueOption) (items : List ArgItem) : Option Bytes :=
  (items.filterMap (ArgItem.value? opt)).getLast?

/-- The options that the items ask for: the last occurrence of each counts. -/
def configOf (items : List ArgItem) : Options where
  targetPid := (lastValue .pid items).elim Options.default.targetPid atoi
  duration := (lastValue .duration items).elim Options.default.duration atoi
  outputFile := (lastValue .output items).getD Options.default.outputFile
  cudaLibPath := lastValue .cudaLib items
  captureStacksCli := .flag .noStacks ∉ items
  symbolizeCli := .flag .noSymbolize ∉ items
  samplePeriodAsync :=
    (lastValue .stackSampleAsync items).elim Options.default.samplePeriodAsync
      fun val => atLeastOne 1 (atoi val)
  samplePeriodSync :=
    (lastValue .stackSampleSync items).elim Options.default.samplePeriodSync
      fun val => atLeastOne 1 (atoi val)
  maxStackFramesInJson :=
    (lastValue .maxStackFrames items).elim Options.default.maxStackFramesInJson
      fun val => atLeastOne 12 (atoi val)

/-- Each option that takes a value is found by its word. -/
theorem valueOption?_word (opt : ValueOption) : valueOption? opt.word = some opt := by
  cases opt <;> decide

/-- The word of a flag is no option with a value. -/
theorem valueOption?_flag_word (f : Flag) : valueOption? f.word = none := by
  cases f <;> decide

/-- Each flag is found by its word. -/
theorem flag?_word (f : Flag) : flag? f.word = some f := by
  cases f <;> decide

/-- An option with a value is found by its own word only. -/
theorem word_of_valueOption? {arg : Bytes} {opt : ValueOption} (h : valueOption? arg = some opt) :
    arg = opt.word := by
  have hword := List.find?_some h
  exact of_decide_eq_true hword

/-- A flag is found by its own word only. -/
theorem word_of_flag? {arg : Bytes} {f : Flag} (h : flag? arg = some f) : arg = f.word := by
  have hword := List.find?_some h
  exact of_decide_eq_true hword

/-- One item in front of a command line. -/
theorem parseArgs_words_append (o : Options) (item : ArgItem) (argv : List Bytes) :
    parseArgs o (item.words ++ argv) = parseArgs (item.apply o) argv := by
  cases item with
  | value opt val => exact parseArgs.eq_2 o opt.word opt val argv (valueOption?_word opt)
  | flag f =>
      show parseArgs o (f.word :: argv) = _
      rw [parseArgs.eq_def]
      dsimp only
      rw [valueOption?_flag_word, flag?_word]
      rfl

/-- Different options have different words. -/
theorem ValueOption.word_injective : Function.Injective ValueOption.word := by
  intro opt opt' h
  have hsome := valueOption?_word opt
  rw [h, valueOption?_word] at hsome
  exact (Option.some.inj hsome).symm

/-- Different flags have different words. -/
theorem Flag.word_injective : Function.Injective Flag.word := by
  intro f f' h
  have hsome := flag?_word f
  rw [h, flag?_word] at hsome
  exact (Option.some.inj hsome).symm

/-- No option shares its word with a flag. -/
theorem ValueOption.word_ne_word (opt : ValueOption) (f : Flag) : opt.word ≠ f.word := by
  intro h
  have hsome := valueOption?_word opt
  rw [h, valueOption?_flag_word] at hsome
  cases hsome

/-- The first item of a command line can be told from its words. -/
theorem words_append_cancel {item item' : ArgItem} {argv argv' : List Bytes}
    (h : item.words ++ argv = item'.words ++ argv') : item = item' ∧ argv = argv' := by
  cases item with
  | value opt val =>
      cases item' with
      | flag f => exact absurd (List.cons.inj h).1 (opt.word_ne_word f)
      | value opt' val' =>
          obtain ⟨hword, htail⟩ := List.cons.inj h
          obtain rfl := ValueOption.word_injective hword
          obtain ⟨rfl, rfl⟩ := List.cons.inj htail
          exact ⟨rfl, rfl⟩
  | flag f =>
      cases item' with
      | value opt val => exact absurd (List.cons.inj h).1.symm (opt.word_ne_word f)
      | flag f' =>
          obtain ⟨hword, rfl⟩ := List.cons.inj h
          obtain rfl := Flag.word_injective hword
          exact ⟨rfl, rfl⟩

/-- **What the loop accepts**: the command lines that are lists of items. -/
theorem parseArgs_eq_some_iff (o o' : Options) (argv : List Bytes) :
    parseArgs o argv = some o' ↔
      ∃ items, argv = cmdWords items ∧ o' = items.foldl ArgItem.apply o := by
  constructor
  · intro h
    induction o, argv using parseArgs.induct with
    | case1 o => exact ⟨[], rfl, (Option.some.inj h).symm⟩
    | case2 o arg opt val rest hopt ih =>
        obtain rfl := word_of_valueOption? hopt
        rw [parseArgs.eq_2 o _ opt val rest hopt] at h
        obtain ⟨items, rfl, hitems⟩ := ih h
        exact ⟨.value opt val :: items, rfl, hitems⟩
    | case3 o arg rest f hflag _ ih =>
        obtain rfl := word_of_flag? hflag
        have hstep := parseArgs_words_append o (.flag f) rest
        obtain ⟨items, rfl, hitems⟩ := ih (hstep.symm.trans h)
        exact ⟨.flag f :: items, rfl, hitems⟩
    | case4 o arg rest hflag hvalue =>
        have hnone := parseArgs.eq_3 o arg rest hvalue
        rw [hflag, h] at hnone
        cases hnone
  · rintro ⟨items, rfl, rfl⟩
    induction items generalizing o with
    | nil => rfl
    | cons item items ih =>
        rw [cmdWords, List.flatMap_cons, parseArgs_words_append]
        exact ih (item.apply o)

/-- A command line is a list of items in one way only. -/
theorem cmdWords_injective : Function.Injective cmdWords := by
  intro items
  induction items with
  | nil =>
      intro items' h
      cases items' with
      | nil => rfl
      | cons item' rest' => cases item' <;> simp [cmdWords, ArgItem.words] at h
  | cons item rest ih =>
      intro items' h
      cases items' with
      | nil => cases item <;> simp [cmdWords, ArgItem.words] at h
      | cons item' rest' =>
          have hwords : item.words ++ cmdWords rest = item'.words ++ cmdWords rest' := h
          obtain ⟨rfl, hrest⟩ := words_append_cancel hwords
          rw [ih hrest]

/-! ### What is asked for -/

/-- The value given later counts. -/
theorem lastValue_append (opt : ValueOption) (items : List ArgItem) (item : ArgItem) :
    lastValue opt (items ++ [item]) = (item.value? opt).or (lastValue opt items) := by
  rw [lastValue, List.filterMap_append, List.getLast?_append]
  cases h : item.value? opt <;> simp [lastValue, h]

/-- The value that counts is one of those given. -/
theorem mem_of_lastValue {opt : ValueOption} {items : List ArgItem} {w : Bytes}
    (h : lastValue opt items = some w) : .value opt w ∈ items := by
  obtain ⟨item, hitem, hvalue⟩ := List.mem_filterMap.mp (List.mem_of_getLast? h)
  cases item with
  | flag f => cases hvalue
  | value opt' val =>
      rw [ArgItem.value?] at hvalue
      split_ifs at hvalue with hopt
      cases hopt
      cases hvalue
      exact hitem

/-- Applying the items in order leaves the last occurrence of each option. -/
theorem foldl_apply (items : List ArgItem) :
    items.foldl ArgItem.apply .default = configOf items := by
  induction items using List.reverseRecOn with
  | nil => rfl
  | append_singleton items item ih =>
      rw [List.foldl_append, ih]
      cases item with
      | flag f =>
          cases f <;>
            simp [ArgItem.apply, Flag.set, configOf, lastValue_append, ArgItem.value?]
      | value opt val =>
          cases opt <;>
            simp [ArgItem.apply, ValueOption.set, configOf, lastValue_append, ArgItem.value?]

/-! ### What an accepted command line means -/

/-- A word that is a positive number. -/
def WritesPositive (w : Bytes) : Prop := ∃ n : ℤ, 0 < n ∧ Writes w n

/-- The options mean what the items say. -/
structure MeansWhatItSays (items : List ArgItem) (o : Options) : Prop where
  /-- Each option has the word after its last occurrence. -/
  asked : o = configOf items
  async : 1 ≤ o.samplePeriodAsync
  sync : 1 ≤ o.samplePeriodSync
  frames : 1 ≤ o.maxStackFramesInJson
  /-- The trace ends. -/
  bounded : 0 < o.alarmSeconds
  /-- The target is the number that was written, and both filters are set to it. -/
  target : ∀ w ∈ lastValue .pid items, ∃ n : ℤ, 0 < n ∧ Writes w n ∧ o.targetPid.toInt = n ∧
    (o.cpuTargetPid true).toNat = n ∧ o.gpuCfg.targetPid.toNat = n
  /-- No other word passes for a process or for a number of seconds. -/
  numbers : ∀ w, .value .pid w ∈ items ∨ .value .duration w ∈ items → WritesPositive w

/-- A command line is rejected, or means what it says. -/
def AcceptedMeansWhatItSays (argv : List Bytes) : Prop :=
  ∀ o, parseArgs .default argv = some o →
    ∃ items, argv = cmdWords items ∧ MeansWhatItSays items o

/-- The values of `--pid` and `--duration` are positive numbers, the process that counts fits
into an `int`, and the duration that counts does not vanish when it is cut to 32 bits. -/
structure ValuesFit (items : List ArgItem) : Prop where
  numbers : ∀ w, .value .pid w ∈ items ∨ .value .duration w ∈ items → WritesPositive w
  pid : ∀ w ∈ lastValue .pid items, ∀ n, Writes w n → n < 2 ^ 31
  duration : ∀ w ∈ lastValue .duration items, ∀ n, Writes w n → 2 ^ 63 ≤ n ∨ ¬2 ^ 32 ∣ n

/-- As an unsigned number, everything but zero is positive. -/
theorem toUInt32_pos_iff (x : Int32) : 0 < x.toUInt32 ↔ x ≠ 0 := by
  rw [UInt32.pos_iff_ne_zero]
  constructor
  · rintro h rfl
    exact h rfl
  · intro h hzero
    exact h (congrArg UInt32.toInt32 hzero)

/-- A positive number keeps its value as an unsigned one. -/
theorem toNat_toUInt32_of_pos {x : Int32} (h : 0 < x.toInt) : (x.toUInt32.toNat : ℤ) = x.toInt := by
  have hle : 0 ≤ x := Int32.le_iff_toInt_le.mpr h.le
  rw [Int32.toNat_toUInt32_of_le hle, Int32.toNatClampNeg, Int.toNat_of_nonneg h.le]

/-- An option that is raised to one is at least one, given or not. -/
theorem one_le_elim_atLeastOne {d fallback : Int32} (hd : 1 ≤ d) (hfallback : 1 ≤ fallback)
    (v : Option Bytes) : 1 ≤ v.elim d fun val => atLeastOne fallback (atoi val) := by
  cases v with
  | none => exact hd
  | some val =>
      show 1 ≤ atLeastOne fallback (atoi val)
      rw [atLeastOne]
      split_ifs with h
      · exact hfallback
      · rw [Int32.le_iff_toInt_le] at h ⊢
        rw [Int32.toInt_zero] at h
        rw [Int32.toInt_one]
        omega

/-- The alarm is set unless the last duration is read as `0`. -/
theorem alarmSeconds_configOf_pos_iff (items : List ArgItem) :
    0 < (configOf items).alarmSeconds ↔ ∀ w ∈ lastValue .duration items, atoi w ≠ 0 := by
  rw [Options.alarmSeconds, toUInt32_pos_iff, configOf]
  cases lastValue .duration items with
  | none => simp [Options.default]
  | some w => simp

/-- The target is the last `--pid` given. -/
theorem targetPid_configOf {items : List ArgItem} {w : Bytes} (h : lastValue .pid items = some w) :
    (configOf items).targetPid = atoi w := by
  rw [configOf, h]
  rfl

/-- A positive target is handed to both filters. -/
theorem filters_of_pos {o : Options} (h : 0 < o.targetPid.toInt) :
    (o.cpuTargetPid true).toNat = o.targetPid.toInt ∧
      o.gpuCfg.targetPid.toNat = o.targetPid.toInt := by
  have hne : o.targetPid ≠ 0 := by
    intro hzero
    rw [hzero] at h
    exact absurd h (by decide)
  rw [Options.cpuTargetPid, if_pos hne, if_pos rfl]
  exact ⟨toNat_toUInt32_of_pos h, toNat_toUInt32_of_pos h⟩

/-- The loop gives what the items ask for. -/
theorem parseArgs_cmdWords (items : List ArgItem) :
    parseArgs .default (cmdWords items) = some (configOf items) :=
  (parseArgs_eq_some_iff _ _ _).mpr ⟨items, rfl, (foldl_apply items).symm⟩

/-- The values decide whether the options mean what the items say. -/
theorem meansWhatItSays_configOf_iff (items : List ArgItem) :
    MeansWhatItSays items (configOf items) ↔ ValuesFit items := by
  constructor
  · intro h
    refine ⟨h.numbers, ?_, ?_⟩
    · intro w hw n hn
      obtain ⟨m, -, hm, htarget, -, -⟩ := h.target w hw
      have hlt := Int32.toInt_lt (configOf items).targetPid
      rw [htarget, hm.unique hn] at hlt
      exact hlt
    · intro w hw n hn
      obtain ⟨m, hpos, hm⟩ := h.numbers w (.inr (mem_of_lastValue hw))
      rw [hm.unique hn] at hpos
      have hne := (alarmSeconds_configOf_pos_iff items).mp h.bounded w hw
      rw [ne_eq, atoi_eq_zero_iff hn hpos] at hne
      omega
  · intro h
    refine ⟨rfl, one_le_elim_atLeastOne (by decide) (by decide) _,
      one_le_elim_atLeastOne (by decide) (by decide) _,
      one_le_elim_atLeastOne (by decide) (by decide) _, ?_, ?_, h.numbers⟩
    · rw [alarmSeconds_configOf_pos_iff]
      intro w hw hzero
      obtain ⟨n, hpos, hn⟩ := h.numbers w (.inr (mem_of_lastValue hw))
      rw [atoi_eq_zero_iff hn hpos] at hzero
      rcases h.duration w hw n hn with hlong | hdvd
      · omega
      · exact hdvd hzero.2
    · intro w hw
      obtain ⟨n, hpos, hn⟩ := h.numbers w (.inl (mem_of_lastValue hw))
      have htarget : (configOf items).targetPid.toInt = n := by
        rw [targetPid_configOf hw]
        exact toInt_atoi hn (by omega) (h.pid w hw n hn)
      obtain ⟨hcpu, hgpu⟩ := filters_of_pos (o := configOf items) (by omega)
      exact ⟨n, hpos, hn, htarget, hcpu.trans htarget, hgpu.trans htarget⟩

/-- **When a command line is safe to accept**: it always is if it is rejected, and otherwise
the values of `--pid` and `--duration` have to fit, since nothing checks them. -/
theorem acceptedMeansWhatItSays_iff (argv : List Bytes) :
    AcceptedMeansWhatItSays argv ↔ ∀ items, argv = cmdWords items → ValuesFit items := by
  constructor
  · rintro h items rfl
    obtain ⟨items', hwords, hmeans⟩ := h _ (parseArgs_cmdWords items)
    obtain rfl := cmdWords_injective hwords
    exact (meansWhatItSays_configOf_iff items).mp hmeans
  · intro h o ho
    obtain ⟨items, hwords, rfl⟩ := (parseArgs_eq_some_iff _ _ _).mp ho
    rw [foldl_apply]
    exact ⟨items, hwords, (meansWhatItSays_configOf_iff items).mpr (h items hwords)⟩

/-- A process that is not a number is accepted as "all processes", and `0` seconds as "without
an end". -/
theorem bad_pid_traces_all :
    (parseArgs .default [ascii "--pid", ascii "abc"]).map (·.cpuTargetPid true) = some 0 ∧
      (parseArgs .default [ascii "--duration", ascii "0"]).map Options.alarmSeconds = some 0 ∧
      ¬AcceptedMeansWhatItSays [ascii "--pid", ascii "abc"] ∧
      ¬AcceptedMeansWhatItSays [ascii "--duration", ascii "0"] := by
  refine ⟨by decide, by decide, ?_, ?_⟩
  · intro h
    obtain ⟨items, hwords, hmeans⟩ := h _ (parseArgs_cmdWords [.value .pid (ascii "abc")])
    have hitems : [.value .pid (ascii "abc")] = items := cmdWords_injective hwords
    obtain ⟨n, -, hn⟩ := hmeans.numbers (ascii "abc") (.inl (by rw [← hitems]; decide))
    have hnone : readNumber (ascii "abc") = none := by decide
    rw [Writes, hnone] at hn
    cases hn
  · intro h
    obtain ⟨items, -, hmeans⟩ := h _ (parseArgs_cmdWords [.value .duration (ascii "0")])
    exact absurd hmeans.bounded (by decide)

end UnifiedTrace
