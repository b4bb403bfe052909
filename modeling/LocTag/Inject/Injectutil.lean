import LocTag.Root.Lines
import LocTag.Radiotap.Iterator

/-!
# Injection

`InjectionFragment` formats a command for `injectutil`, which parses its options into the static
`struct nex_inject_radiotap nex_rt` and writes that header and a frame file to a raw socket.

`injection_header` follows the values of the form through all of it: whatever the integers are, the
packet is one the radiotap iterator of the tree takes apart into three arguments, with the values in
their places, and the frame behind them.
-/

namespace LocTag

open Lib Lib.Fetch Lib.Shell

/-! ### `struct nex_inject_radiotap` -/

/-- The fields of `nex_rt` that the options set, with their defaults. -/
structure NexRt where
  txdelay : ℕ := 0
  txrepetitionsNum : ℕ := 1
  txrepetitionsPeriod : ℕ := 0
  ratespec : ℕ := 0xc1000000
  deriving DecidableEq

/-- A `uint32_t` in memory, on a little-endian host. -/
def le32Bytes (n : ℕ) : List UInt8 :=
  [UInt8.ofNat (n % 256), UInt8.ofNat (n / 256 % 256), UInt8.ofNat (n / 65536 % 256),
    UInt8.ofNat (n / 16777216 % 256)]

/-- The fields of `nex_rt` that no option sets: version, padding, `it_len`, the two present words, the
vendor's OUI, sub-namespace and skip length, and padding. -/
def nexRtFixed : List UInt8 :=
  [0, 0, 36, 0, 0, 0, 0, 0xc0, 7, 0, 0, 0, 0x4e, 0x45, 0x58, 0, 18, 0, 0, 0]

/-- `nex_rt` in memory. -/
def NexRt.bytes (rt : NexRt) : List UInt8 :=
  nexRtFixed ++ (le32Bytes rt.txdelay ++ (le32Bytes rt.txrepetitionsNum ++
    (le32Bytes rt.txrepetitionsPeriod ++ le32Bytes rt.ratespec)))

/-! ### `injectutil` -/

/-- The static variables the options set. -/
structure InjectOpts where
  nexRt : NexRt := {}
  ifname : List Char := "wlan0".toList
  filepath : List Char := []
  logLevel : ℤ := 2

/-- `strtoul(arg, NULL, base)` -/
def cStrtoul (arg : List Char) (base : ℕ) : ℕ := ((strtoul arg base).map Prod.fst).getD 0

/-- `parse_opt`, `none` for `ARGP_ERR_UNKNOWN`. -/
def parseOpt (key : Char) (arg : List Char) (st : InjectOpts) : Option InjectOpts :=
  match key with
  | 'I' => some { st with ifname := arg }
  | 'n' => some { st with nexRt := { st.nexRt with txrepetitionsNum := cStrtoul arg 10 } }
  | 'p' => some { st with nexRt := { st.nexRt with txrepetitionsPeriod := cStrtoul arg 10 } }
  | 'd' => some { st with nexRt := { st.nexRt with txdelay := cStrtoul arg 10 } }
  | 'r' => some { st with nexRt := { st.nexRt with ratespec := cStrtoul arg 0 } }
  | 'f' => some { st with filepath := arg }
  | 'l' => some { st with logLevel := ((strtol arg 0).map Prod.fst).getD 0 }
  | _ => none

/-- `argp_parse` over words that are options with their argument attached; `none` for others. -/
def argpParse (st : InjectOpts) : List (List Char) → Option InjectOpts
  | [] => some st
  | ('-' :: key :: c :: arg) :: words =>
    (parseOpt key (c :: arg) st).bind fun st => argpParse st words
  | _ :: _ => none

def MAX_FRAME_SIZE : ℕ := 4096

/-- `readFile`: as much of the file as there is room for; `none` where it cannot be read. -/
def readFile (files : List Char → Option (List UInt8)) (maxSize : ℕ) (filepath : List Char) :
    Option (List UInt8) := (files filepath).map fun f => f.take maxSize

/-- What `main` writes to the socket, for the words after the name of the program. -/
def injectutil (files : List Char → Option (List UInt8)) (words : List (List Char)) :
    Option (List UInt8) := do
  let opts ← argpParse {} words
  let frame ← readFile files (MAX_FRAME_SIZE - opts.nexRt.bytes.length) opts.filepath
  pure (opts.nexRt.bytes ++ frame)

/-- The integers of a form are Java `int`s. -/
def IsInt (x : ℤ) : Prop := -2147483648 ≤ x ∧ x < 2147483648

/-- The namespace a parser of these packets registers. -/
def nexNamespace : RadiotapNamespace := ⟨[⟨4, 4⟩, ⟨4, 8⟩, ⟨4, 4⟩], 0x4e4558, 0⟩

/-! ### Options -/

theorem decimal_eq_cons (x : ℤ) : ∃ c s, decimal x = c :: s := by
  cases x with
  | ofNat n =>
    obtain ⟨d, s, -, hs⟩ := toDigits_eq_cons (by omega : 1 < 10) n
    exact ⟨_, s, hs⟩
  | negSucc n => exact ⟨'-', _, rfl⟩

theorem cStrtoul_decimal {x : ℤ} (h : IsInt x) : cStrtoul (decimal x) 10 = toU32 x := by
  rw [cStrtoul, strtoul_decimal h.1 h.2]
  rfl

theorem cStrtoul_ratespec (x : ℤ) :
    cStrtoul ('0' :: 'x' :: hexPad 8 (toU32 x)) 0 = toU32 x := by
  rw [cStrtoul, strtoul_hexPad (toU32_lt x)]
  rfl

/-- The header the options of a command make. -/
def InjectPhyConf.nexRt (ipc : InjectPhyConf) : NexRt :=
  { txdelay := toU32 ipc.delay
    txrepetitionsNum := toU32 ipc.number
    txrepetitionsPeriod := toU32 ipc.period
    ratespec := toU32 ipc.ratespec }

theorem argpParse_option {key : Char} {arg : List Char} (harg : arg ≠ []) {st st' : InjectOpts}
    (hopt : parseOpt key arg st = some st') (words : List (List Char)) :
    argpParse st (('-' :: key :: arg) :: words) = argpParse st' words := by
  rcases arg with _ | ⟨c, arg⟩
  · exact absurd rfl harg
  · rw [argpParse, hopt, Option.bind_some]

/-- **The options of a command are read back.** -/
theorem argpParse_words {ipc : InjectPhyConf} (hdelay : IsInt ipc.delay)
    (hperiod : IsInt ipc.period) (hnumber : IsInt ipc.number) {path : List Char}
    (hpath : path ≠ []) :
    ∃ opts, argpParse {} (ipc.words ++ ["-f".toList ++ path, "-l0".toList]) = some opts ∧
      opts.nexRt = ipc.nexRt ∧ opts.filepath = path := by
  have hne : ∀ x, decimal x ≠ [] := by
    intro x h
    obtain ⟨c, s, hs⟩ := decimal_eq_cons x
    rw [hs] at h
    cases h
  have hwords : ipc.words ++ ["-f".toList ++ path, "-l0".toList] =
      ['-' :: 'I' :: "wlan0".toList, '-' :: 'n' :: decimal ipc.number,
        '-' :: 'p' :: decimal ipc.period, '-' :: 'd' :: decimal ipc.delay,
        '-' :: 'r' :: '0' :: 'x' :: hexPad 8 (toU32 ipc.ratespec), '-' :: 'f' :: path,
        '-' :: 'l' :: ['0']] := by
    have h1 : "-Iwlan0".toList = '-' :: 'I' :: "wlan0".toList := rfl
    have h2 : "-r0x".toList = '-' :: 'r' :: '0' :: ['x'] := rfl
    delta InjectPhyConf.words
    rw [h1, h2]
    rfl
  have hnexRt : NexRt.mk (cStrtoul (decimal ipc.delay) 10) (cStrtoul (decimal ipc.number) 10)
      (cStrtoul (decimal ipc.period) 10)
      (cStrtoul ('0' :: 'x' :: hexPad 8 (toU32 ipc.ratespec)) 0) = ipc.nexRt := by
    rw [cStrtoul_decimal hdelay, cStrtoul_decimal hnumber, cStrtoul_decimal hperiod,
      cStrtoul_ratespec]
    rfl
  refine ⟨⟨⟨_, _, _, _⟩, "wlan0".toList, path,
    ((strtol ['0'] 0).map Prod.fst).getD 0⟩, ?_, hnexRt, rfl⟩
  rw [hwords, argpParse_option (by simp) rfl, argpParse_option (hne _) rfl,
    argpParse_option (hne _) rfl, argpParse_option (hne _) rfl,
    argpParse_option (List.cons_ne_nil _ _) rfl, argpParse_option hpath rfl,
    argpParse_option (List.cons_ne_nil _ _) rfl, argpParse]

/-! ### The packet -/

theorem length_bytes (rt : NexRt) : rt.bytes.length = 36 := rfl

/-- The memory of a packet has the bytes no option sets. -/
theorem mem_nexRtFixed (rt : NexRt) (frame : List UInt8) (i : ℕ) (b : UInt8)
    (h : Mem.ofList nexRtFixed i = some b) : Mem.ofList (rt.bytes ++ frame) i = some b := by
  obtain ⟨hi, -⟩ := List.getElem?_eq_some_iff.1 h
  rw [← h, Mem.ofList, Mem.ofList, NexRt.bytes, List.append_assoc, List.getElem?_append_left hi]

/-- The iterator `init` makes of a packet. -/
def nexIter : RadiotapIter :=
  { maxLength := 36, argIndex := 0, arg := 12, bitmapShifter := 0xc0000000, nextBitmap := 8,
    nextNsData := none, resetOnExt := false, currentNs := some .radiotap, isRadiotapNs := true,
    thisArg := 12, thisArgIndex := 0, thisArgSize := 0 }

theorem run_init (rt : NexRt) (frame : List UInt8) :
    run (Mem.ofList (rt.bytes ++ frame))
      (ieee80211RadiotapIteratorInit (rt.bytes ++ frame).length) = some (.ok nexIter) := by
  have hmono := mem_nexRtFixed rt frame
  have hversion : run (Mem.ofList (rt.bytes ++ frame)) (u8 0) = some 0 :=
    run_mono hmono rfl
  have hlen : run (Mem.ofList (rt.bytes ++ frame)) (le16 2) = some 36 :=
    run_mono hmono rfl
  have hstart : run (Mem.ofList (rt.bytes ++ frame)) (iteratorStart 36) = some (.ok nexIter) :=
    run_mono hmono rfl
  have hlong : 36 ≤ (rt.bytes ++ frame).length := by
    rw [List.length_append, length_bytes]
    omega
  rw [ieee80211RadiotapIteratorInit, if_neg (by omega), run_bind, hversion, Option.bind_some,
    if_neg (by simp), run_bind, hlen, Option.bind_some, if_neg (by omega), hstart]

/-- The iterator in the vendor's namespace. -/
def nexIterAt (argIndex arg bitmapShifter thisArg thisArgSize : ℕ) : RadiotapIter :=
  { maxLength := 36, argIndex, arg, bitmapShifter, nextBitmap := 12, nextNsData := some 36,
    resetOnExt := false, currentNs := some (.vendor nexNamespace), isRadiotapNs := false,
    thisArg, thisArgIndex := argIndex - 1, thisArgSize }

/-- **The iterator takes a packet apart into its three arguments.** -/
theorem iterRun_packet (rt : NexRt) (frame : List UInt8) :
    IterRun (Mem.ofList (rt.bytes ++ frame)) [nexNamespace] nexIter
      [(0, 20, 4), (1, 24, 8), (2, 32, 4)] .enoent := by
  have hfirst : IterReturns (Mem.ofList nexRtFixed) [nexNamespace] nexIter
      (.hit (nexIterAt 1 24 3 20 4)) := ⟨64, rfl⟩
  have hsecond : IterReturns (Mem.ofList nexRtFixed) [nexNamespace] (nexIterAt 1 24 3 20 4)
      (.hit (nexIterAt 2 32 1 24 8)) := ⟨64, rfl⟩
  have hthird : IterReturns (Mem.ofList nexRtFixed) [nexNamespace] (nexIterAt 2 32 1 24 8)
      (.hit (nexIterAt 3 36 0 32 4)) := ⟨64, rfl⟩
  have hend : IterReturns (Mem.ofList nexRtFixed) [nexNamespace] (nexIterAt 3 36 0 32 4)
      (.failed .enoent) := ⟨64, rfl⟩
  exact IterRun.mono (mem_nexRtFixed rt frame)
    (.hit hfirst (.hit hsecond (.hit hthird (.failed hend))))

/-- **The words of the command.** -/
theorem tokenise_injectCommand (ipc : InjectPhyConf) {path : List Char}
    (hpath : ∀ c ∈ path, (charClass c).Plain) :
    tokenise charClass (injectCommand ipc path) = some (.word "injectutil".toList ::
      ((ipc.words ++ ["-f".toList ++ path, "-l0".toList]).map .word ++ [.newline])) := by
  have hline : injectCommand ipc path = "injectutil".toList ++
      (spaced ' ' (ipc.words ++ ["-f".toList ++ path, "-l0".toList]) ++ ['\n']) := by
    rw [injectCommand_eq]
    simp [spaced]
  rw [hline]
  apply tokenise_spaced rfl rfl (by decide +kernel)
  intro w hw
  rcases List.mem_append.1 hw with hw | hw
  · exact (ipc.fixedWord_words w hw).2
  · simp only [List.mem_cons, List.not_mem_nil, or_false] at hw
    rcases hw with rfl | rfl
    · refine ⟨by decide, ?_⟩
      intro c hc
      rcases List.mem_cons.1 hc with rfl | hc
      · rfl
      rcases List.mem_cons.1 hc with rfl | hc
      · rfl
      · exact hpath c hc
    · decide +kernel

/-- The command makes `injectutil` send a packet that the iterator takes apart into three arguments,
with the values of the form in them and the frame behind the header. -/
def CarriesForm (files : List Char → Option (List UInt8)) (ipc : InjectPhyConf) (path : List Char)
    (frame : List UInt8) : Prop :=
  ∃ args pkt it,
    tokenise charClass (injectCommand ipc path) =
      some (.word "injectutil".toList :: (args.map .word ++ [.newline])) ∧
    injectutil files args = some pkt ∧
    run (Mem.ofList pkt) (ieee80211RadiotapIteratorInit pkt.length) = some (.ok it) ∧
    IterRun (Mem.ofList pkt) [nexNamespace] it [(0, 20, 4), (1, 24, 8), (2, 32, 4)] .enoent ∧
    (Mem.ofList pkt).blockAt 20 4 = le32Bytes (toU32 ipc.delay) ∧
    (Mem.ofList pkt).blockAt 24 8 =
      le32Bytes (toU32 ipc.number) ++ le32Bytes (toU32 ipc.period) ∧
    (Mem.ofList pkt).blockAt 32 4 = le32Bytes (toU32 ipc.ratespec) ∧
    pkt.drop it.maxLength = frame

/-- **The values of the form arrive in the packet**, whatever they are. -/
theorem injection_header {ipc : InjectPhyConf} (hdelay : IsInt ipc.delay)
    (hperiod : IsInt ipc.period) (hnumber : IsInt ipc.number) {path : List Char} (hne : path ≠ [])
    (hpath : ∀ c ∈ path, (charClass c).Plain) {files : List Char → Option (List UInt8)}
    {frame : List UInt8} (hfile : files path = some frame) (hframe : frame.length ≤ 4060) :
    CarriesForm files ipc path frame := by
  obtain ⟨opts, hopts, hnexRt, hfilepath⟩ := argpParse_words hdelay hperiod hnumber hne
  refine ⟨_, ipc.nexRt.bytes ++ frame, nexIter, tokenise_injectCommand ipc hpath, ?_, run_init _ _,
    iterRun_packet _ _, rfl, rfl, rfl, rfl⟩
  have hread : readFile files (MAX_FRAME_SIZE - ipc.nexRt.bytes.length) path = some frame := by
    rw [readFile, hfile, Option.map_some, length_bytes,
      List.take_of_length_le (show frame.length ≤ MAX_FRAME_SIZE - 36 from hframe)]
  rw [injectutil, hopts]
  show (readFile files (MAX_FRAME_SIZE - opts.nexRt.bytes.length) opts.filepath).bind _ = _
  rw [hnexRt, hfilepath, hread]
  rfl

/-- Negative values, and a file. -/
theorem injection_header_negative :
    CarriesForm (fun path => if path = "/sdcard/dot11pkts/beacon.bin".toList then some [128, 0]
      else none) ⟨-1, -2147483648, 2147483647, -1056964608⟩ "/sdcard/dot11pkts/beacon.bin".toList
      [128, 0] :=
  injection_header ⟨by simp, by simp⟩ ⟨by simp, by simp⟩ ⟨by simp, by simp⟩
    (by decide +kernel) (List.all_eq_true.1 (by decide +kernel)) (if_pos rfl) (by decide)

end LocTag
