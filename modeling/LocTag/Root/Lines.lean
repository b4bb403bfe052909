import LocTag.Lib.Numerals
import LocTag.Lib.Words
import LocTag.Lib.Shell
import Mathlib.Algebra.Order.BigOperators.Group.List

/-!
# The lines for the root shell

`CaptureFragment` and `InjectionFragment` format commands around the texts of their fields and the
name of a file, and `BashProcess.input` writes them to `su`.  `Lib.Shell` gives the tokens of what is
written.

`stays_inside_iff` says for which texts a line has the tokens it was meant to have, with the text as
the value of its option: next to nothing is quoted.
-/

namespace LocTag

open Lib Lib.Shell

/-! ### `BashProcess` -/

/-- The UTF-16 units of a character. -/
def utf16 (c : Char) : List ℕ :=
  if c.toNat < 65536 then [c.toNat]
  else [55296 + (c.toNat - 65536) / 1024, 56320 + (c.toNat - 65536) % 1024]

/-- `BashProcess.input`: `writeBytes` writes the low byte of every UTF-16 unit. -/
def BashProcess.input (cmd : List Char) : List UInt8 := (cmd.flatMap utf16).map UInt8.ofNat

/-- The bytes of a text, as the programs and the file system have them. -/
def utf8 (s : List Char) : List UInt8 := s.flatMap String.utf8EncodeChar

def byteClass (b : UInt8) : CharClass := charClass (Char.ofNat b.toNat)

/-! ### The commands -/

/-- `InjectPhyConf` as far as the command prints it. -/
structure InjectPhyConf where
  delay : ℤ
  period : ℤ
  number : ℤ
  ratespec : ℤ

/-- The words of `injectutil -Iwlan0 -n%d -p%d -d%d -r0x%08x` -/
def InjectPhyConf.words (ipc : InjectPhyConf) : List (List Char) :=
  ["-Iwlan0".toList, "-n".toList ++ decimal ipc.number, "-p".toList ++ decimal ipc.period,
    "-d".toList ++ decimal ipc.delay, "-r0x".toList ++ hexPad 8 (toU32 ipc.ratespec)]

/-- `String.format("injectutil -Iwlan0 -n%d -p%d -d%d -r0x%08x -f%s -l0\n", ..)` -/
def injectCommand (ipc : InjectPhyConf) (path : List Char) : List Char :=
  "injectutil -Iwlan0 -n".toList ++ decimal ipc.number ++ " -p".toList ++ decimal ipc.period ++
    " -d".toList ++ decimal ipc.delay ++ " -r0x".toList ++ hexPad 8 (toU32 ipc.ratespec) ++
    " -f".toList ++ path ++ " -l0\n".toList

/-- A name `InjectMacConf.listFiles` can return. -/
structure FileName where
  name : List Char
  ne_nil : name ≠ []
  no_slash : '/' ∉ name
  no_nul : '\x00' ∉ name

/-- `InjectMacConf.getAbsolutePath`, in the directory `InjectionFragment` makes it with. -/
def FileName.getAbsolutePath (file : FileName) : List Char := "/sdcard/dot11pkts/".toList ++ file.name

/-- The lines with a text of the user's in them. -/
inductive RootLine where
  | captureChanspec (chanspecStr : List Char)
  | capture (filter : List Char) (pkgNum : ℤ)
  | injectChanspec (chanspecStr : List Char)
  | inject (ipc : InjectPhyConf) (file : FileName)

namespace RootLine

/-- The line as it is formatted. -/
def cmd : RootLine → List Char
  | captureChanspec chanspecStr => "nexutil -m2 -k".toList ++ chanspecStr ++ "\n".toList
  | capture filter pkgNum =>
    "LD_PRELOAD=libfakeioctl.so csiutil -m2 -f\"".toList ++ filter ++
      "\" -l0 -t1 -d1 -n".toList ++ decimal pkgNum ++ " >/dev/null 2>&1 &\n".toList
  | injectChanspec chanspecStr => "nexutil -Iwlan0 -m1 -k".toList ++ chanspecStr ++ "\n".toList
  | inject ipc file => injectCommand ipc file.getAbsolutePath

/-- The tokens the line is meant to have. -/
def tokens : RootLine → List (Token Char)
  | captureChanspec chanspecStr =>
    [.word "nexutil".toList, .word "-m2".toList, .word ("-k".toList ++ chanspecStr), .newline]
  | capture filter pkgNum =>
    [.word "LD_PRELOAD=libfakeioctl.so".toList, .word "csiutil".toList, .word "-m2".toList,
      .word ("-f".toList ++ filter), .word "-l0".toList, .word "-t1".toList, .word "-d1".toList,
      .word ("-n".toList ++ decimal pkgNum), .op [.great], .word "/dev/null".toList,
      .ioNumber "2".toList, .op [.great, .amp], .word "1".toList, .op [.amp], .newline]
  | injectChanspec chanspecStr =>
    [.word "nexutil".toList, .word "-Iwlan0".toList, .word "-m1".toList,
      .word ("-k".toList ++ chanspecStr), .newline]
  | inject ipc file =>
    (.word "injectutil".toList :: ipc.words.map .word) ++
      [.word ("-f".toList ++ file.getAbsolutePath), .word "-l0".toList, .newline]

end RootLine

/-- A token as the shell has it. -/
def utf8Token : Token Char → Token UInt8
  | .word w => .word (utf8 w)
  | .ioNumber w => .ioNumber (utf8 w)
  | .op o => .op o
  | .newline => .newline

/-- **The line is the one command it is meant to be**, with the text as the value of its option. -/
def RootLine.StaysInside (l : RootLine) : Prop :=
  tokenise byteClass (BashProcess.input l.cmd) = some (l.tokens.map utf8Token)

/-- ASCII, and nothing the shell takes notice of. -/
def PlainText (s : List Char) : Prop := ∀ c ∈ s, c.toNat < 128 ∧ (charClass c).Plain

/-- ASCII, and itself in double quotes. -/
def QuotableAscii (s : List Char) : Prop := (∀ c ∈ s, c.toNat < 128) ∧ quotableText charClass s

/-- The condition of a line. -/
def RootLine.Safe : RootLine → Prop
  | captureChanspec chanspecStr => PlainText chanspecStr
  | capture filter _ => QuotableAscii filter
  | injectChanspec chanspecStr => PlainText chanspecStr
  | inject _ file => PlainText file.name

/-! ### Encodings -/

theorem input_append (s t : List Char) :
    BashProcess.input (s ++ t) = BashProcess.input s ++ BashProcess.input t := by
  simp [BashProcess.input]

theorem utf8_append (s t : List Char) : utf8 (s ++ t) = utf8 s ++ utf8 t := by
  simp [utf8]

theorem utf8Size_eq_one_iff {c : Char} : c.utf8Size = 1 ↔ c.toNat < 128 := by
  rw [Char.utf8Size_eq_one_iff, UInt32.le_iff_toNat_le]
  exact Nat.lt_succ_iff.symm

/-- The UTF-16 units of a character are no more than its bytes, and fewer outside of ASCII. -/
theorem length_utf16_lt {c : Char} (h : ¬ c.toNat < 128) : (utf16 c).length < c.utf8Size := by
  have hone : c.utf8Size ≠ 1 := fun e => h (utf8Size_eq_one_iff.1 e)
  have hpos := c.utf8Size_pos
  unfold utf16
  split
  · rw [List.length_singleton]
    omega
  · rename_i hbig
    have hval : ∀ n : UInt32, n.toNat < 65536 → ¬ c.val ≤ n := fun n hn hle => hbig
      (Nat.lt_of_le_of_lt (UInt32.le_iff_toNat_le.1 hle) hn)
    have hfour : c.utf8Size = 4 := by
      unfold Char.utf8Size
      rw [if_neg (hval _ (by simp)), if_neg (hval _ (by simp)), if_neg (hval _ (by simp))]
    rw [hfour]
    simp

theorem input_ascii {s : List Char} (h : ∀ c ∈ s, c.toNat < 128) :
    BashProcess.input s = s.map fun c => UInt8.ofNat c.toNat := by
  rw [BashProcess.input, List.map_flatMap, List.map_eq_flatMap]
  apply List.flatMap_congr
  intro c hc
  have hone : utf16 c = [c.toNat] := if_pos (Nat.lt_trans (h c hc) (by omega))
  rw [hone, List.map_singleton]

theorem utf8_ascii {s : List Char} (h : ∀ c ∈ s, c.toNat < 128) : utf8 s = BashProcess.input s := by
  rw [input_ascii h, utf8, List.map_eq_flatMap]
  apply List.flatMap_congr
  intro c hc
  exact String.utf8EncodeChar_eq_singleton (utf8Size_eq_one_iff.2 (h c hc))

theorem length_utf16_le (c : Char) : (utf16 c).length ≤ c.utf8Size := by
  by_cases h : c.toNat < 128
  · rw [utf16, if_pos (by omega)]
    exact c.utf8Size_pos
  · exact (length_utf16_lt h).le

theorem length_input (s : List Char) :
    (BashProcess.input s).length = (s.map fun c => (utf16 c).length).sum := by
  rw [BashProcess.input, List.length_map, List.length_flatMap]

theorem length_utf8 (s : List Char) : (utf8 s).length = (s.map Char.utf8Size).sum := by
  simp only [utf8, List.length_flatMap, String.length_utf8EncodeChar]

/-- The shell receives no more bytes than the text has. -/
theorem length_input_le (s : List Char) : (BashProcess.input s).length ≤ (utf8 s).length := by
  rw [length_input, length_utf8]
  exact List.sum_le_sum fun c _ => length_utf16_le c

/-- **The bytes written are those of the text iff it is ASCII.** -/
theorem utf8_eq_input_iff {s : List Char} :
    utf8 s = BashProcess.input s ↔ ∀ c ∈ s, c.toNat < 128 := by
  refine ⟨?_, utf8_ascii⟩
  intro h c hc
  by_contra hbig
  have hlt : (BashProcess.input s).length < (utf8 s).length := by
    rw [length_input, length_utf8]
    exact List.sum_lt_sum _ _ (fun c _ => length_utf16_le c) ⟨c, hc, length_utf16_lt hbig⟩
  rw [h] at hlt
  exact absurd hlt (Nat.lt_irrefl _)

theorem byteClass_ofNat {c : Char} (h : c.toNat < 128) :
    byteClass (UInt8.ofNat c.toNat) = charClass c := by
  rw [byteClass, UInt8.toNat_ofNat', Nat.mod_eq_of_lt (by omega), Char.ofNat_toNat]

/-- The characters of an ASCII text keep their classes. -/
theorem forall_input {s : List Char} (h : ∀ c ∈ s, c.toNat < 128) (p : CharClass → Prop) :
    (∀ b ∈ BashProcess.input s, p (byteClass b)) ↔ ∀ c ∈ s, p (charClass c) := by
  rw [input_ascii h, List.forall_mem_map]
  exact forall₂_congr fun c hc => by rw [byteClass_ofNat (h c hc)]

theorem quotableText_input {s : List Char} (h : ∀ c ∈ s, c.toNat < 128) :
    quotableText byteClass (BashProcess.input s) = quotableText charClass s := by
  rw [input_ascii h]
  induction s with
  | nil => rfl
  | cons c s ih =>
    have hc := byteClass_ofNat (h c List.mem_cons_self)
    have ih := ih fun d hd => h d (List.mem_cons_of_mem c hd)
    have hhead : (s.map fun c => UInt8.ofNat c.toNat).head?.any
        (fun b => (byteClass b).Quotable && byteClass b ≠ .newline) =
          s.head?.any fun b => (charClass b).Quotable && charClass b ≠ .newline := by
      rcases s with _ | ⟨d, s⟩
      · rfl
      · rw [List.map_cons, List.head?_cons, List.head?_cons, Option.any_some, Option.any_some,
          byteClass_ofNat (h d (by simp))]
    rw [List.map_cons, quotableText, quotableText, hc, hhead, ih]

/-! ### Words -/

/-- A word the code writes down: ASCII and plain. -/
def FixedWord (w : List Char) : Prop := (∀ c ∈ w, c.toNat < 128) ∧ PlainWord charClass w

instance (w : List Char) : Decidable (FixedWord w) :=
  decidable_of_iff ((w.all fun c => c.toNat < 128) ∧ PlainWord charClass w) (by simp [FixedWord])

theorem FixedWord.plainWord {w : List Char} (h : FixedWord w) :
    PlainWord byteClass (BashProcess.input w) := by
  obtain ⟨hascii, hw⟩ := h
  have hplain := (forall_input hascii fun c => c.Plain).2 hw.plain
  rw [input_ascii hascii] at hplain ⊢
  rcases w with _ | ⟨c, w⟩
  · exact hw.elim
  · refine ⟨?_, hplain⟩
    rw [byteClass_ofNat (hascii c List.mem_cons_self)]
    exact hw.1

/-- A fixed word with plain characters after it. -/
theorem FixedWord.append {w s : List Char} (h : FixedWord w) (hs : PlainText s) :
    FixedWord (w ++ s) := by
  obtain ⟨hascii, hw⟩ := h
  refine ⟨fun c hc => ?_, ?_⟩
  · rcases List.mem_append.1 hc with hc | hc
    · exact hascii c hc
    · exact (hs c hc).1
  · rcases w with _ | ⟨c, w⟩
    · exact hw.elim
    · refine ⟨hw.1, ?_⟩
      intro d hd
      rcases List.mem_append.1 (show d ∈ (c :: w) ++ s from hd) with hd | hd
      · exact hw.2 d hd
      · exact (hs d hd).2

theorem input_spaced (ws : List (List Char)) :
    BashProcess.input (spaced ' ' ws) = spaced 32 (ws.map BashProcess.input) := by
  induction ws with
  | nil => rfl
  | cons w ws ih =>
    show BashProcess.input (' ' :: (w ++ spaced ' ' ws)) = _
    rw [List.map_cons, spaced_cons, ← ih, ← input_append]
    rfl

/-- **A line of fixed words with a text after the beginning of one** has the tokens with the text in
that word, iff the text is plain. -/
theorem line_iff (w pre : List Char) (front ws : List (List Char)) (hw : FixedWord w)
    (hpre : FixedWord pre) (hfront : ∀ w ∈ front, FixedWord w) (hws : ∀ w ∈ ws, FixedWord w)
    (text : List Char) :
    tokenise byteClass (BashProcess.input
        (w ++ ((spaced ' ' front ++ ' ' :: pre) ++ (text ++ (spaced ' ' ws ++ ['\n']))))) =
      some ((((.word w :: front.map .word) ++
        (.word (pre ++ text) :: (ws.map .word ++ [.newline])) : List (Token Char))).map utf8Token) ↔
      PlainText text := by
  have hmap : ∀ {ws : List (List Char)}, (∀ w ∈ ws, FixedWord w) →
      (∀ w ∈ ws.map BashProcess.input, PlainWord byteClass w) ∧
        (ws.map Token.word).map utf8Token = (ws.map BashProcess.input).map .word := by
    intro ws hws
    refine ⟨List.forall_mem_map.2 fun w hw => (hws w hw).plainWord, ?_⟩
    rw [List.map_map, List.map_map]
    exact List.map_congr_left fun w hw => congrArg Token.word (utf8_ascii (hws w hw).1)
  have hbytes : BashProcess.input
      (w ++ ((spaced ' ' front ++ ' ' :: pre) ++ (text ++ (spaced ' ' ws ++ ['\n'])))) =
      BashProcess.input w ++ ((spaced 32 (front.map BashProcess.input) ++
        32 :: BashProcess.input pre) ++ (BashProcess.input text ++
          (spaced 32 (ws.map BashProcess.input) ++ [10]))) := by
    rw [input_append, input_append, input_append, input_append, input_append, input_spaced,
      input_spaced]
    rfl
  have htokens : (((.word w :: front.map .word) ++
      (.word (pre ++ text) :: (ws.map .word ++ [.newline])) : List (Token Char))).map utf8Token =
      (.word (BashProcess.input w) :: (front.map BashProcess.input).map .word) ++
        (.word (BashProcess.input pre ++ utf8 text) ::
          ((ws.map BashProcess.input).map .word ++ [.newline])) := by
    rw [List.map_append, List.map_cons, List.map_cons, List.map_append, (hmap hfront).2,
      (hmap hws).2, utf8Token, utf8Token, utf8_append, utf8_ascii hw.1, utf8_ascii hpre.1]
    rfl
  rw [hbytes, htokens, tokenise_command_iff (by rfl) (by rfl) (hmap hws).1 hw.plainWord
    hpre.plainWord (hmap hfront).1 (length_input_le text)]
  constructor
  · rintro ⟨hplain, heq⟩ c hc
    have hascii := utf8_eq_input_iff.1 heq
    exact ⟨hascii c hc, (forall_input hascii fun c => c.Plain).1 hplain c hc⟩
  · intro h
    have hascii : ∀ c ∈ text, c.toNat < 128 := fun c hc => (h c hc).1
    exact ⟨(forall_input hascii fun c => c.Plain).2 fun c hc => (h c hc).2, utf8_ascii hascii⟩

theorem plainText_append {s t : List Char} : PlainText (s ++ t) ↔ PlainText s ∧ PlainText t :=
  List.forall_mem_append

theorem plainText_toDigits {b : ℕ} (h1 : 1 < b) (hb : b ≤ 16) (n : ℕ) :
    PlainText (Nat.toDigits b n) := by
  intro c hc
  obtain ⟨d, hd, rfl⟩ := exists_digitChar_of_mem_toDigits h1 hc
  have hall : ∀ d < 16, (Nat.digitChar d).toNat < 128 ∧ (charClass (Nat.digitChar d)).Plain := by
    decide
  exact hall d (by omega)

theorem plainText_decimal (x : ℤ) : PlainText (decimal x) := by
  cases x with
  | ofNat n => exact plainText_toDigits (by omega) (by omega) n
  | negSucc n =>
    exact List.forall_mem_cons.2 ⟨by decide, plainText_toDigits (by omega) (by omega) (n + 1)⟩

theorem plainText_hexPad (w n : ℕ) : PlainText (hexPad w n) := by
  refine plainText_append.2 ⟨?_, plainText_toDigits (by omega) le_rfl n⟩
  intro c hc
  obtain rfl := List.eq_of_mem_replicate hc
  decide

theorem InjectPhyConf.fixedWord_words (ipc : InjectPhyConf) : ∀ w ∈ ipc.words, FixedWord w := by
  intro w hw
  simp only [InjectPhyConf.words, List.mem_cons, List.not_mem_nil, or_false] at hw
  rcases hw with rfl | rfl | rfl | rfl | rfl
  · decide +kernel
  · exact .append (by decide +kernel) (plainText_decimal _)
  · exact .append (by decide +kernel) (plainText_decimal _)
  · exact .append (by decide +kernel) (plainText_decimal _)
  · exact .append (by decide +kernel) (plainText_hexPad 8 _)

/-- The command as words with blanks before them. -/
theorem injectCommand_eq (ipc : InjectPhyConf) (path : List Char) :
    injectCommand ipc path = "injectutil".toList ++ ((spaced ' ' ipc.words ++ ' ' :: "-f".toList) ++
      (path ++ (spaced ' ' ["-l0".toList] ++ ['\n']))) := by
  have h1 : "injectutil -Iwlan0 -n".toList =
      "injectutil".toList ++ ' ' :: ("-Iwlan0".toList ++ ' ' :: "-n".toList) := rfl
  have h2 : " -p".toList = ' ' :: "-p".toList := rfl
  have h3 : " -d".toList = ' ' :: "-d".toList := rfl
  have h4 : " -r0x".toList = ' ' :: "-r0x".toList := rfl
  have h5 : " -f".toList = ' ' :: "-f".toList := rfl
  have h6 : " -l0\n".toList = ' ' :: ("-l0".toList ++ ['\n']) := rfl
  delta injectCommand InjectPhyConf.words
  rw [h1, h2, h3, h4, h5, h6]
  simp only [spaced_cons, spaced_nil, List.append_assoc, List.cons_append, List.nil_append]

/-! ### The line with quotes -/

/-- The options between the filter and the number. -/
def captureOptions : List (List Char) := ["-l0".toList, "-t1".toList, "-d1".toList]

/-- What follows the filter's closing quote. -/
def captureRest (pkgNum : ℤ) : List Char :=
  (spaced ' ' captureOptions ++ ' ' :: ("-n".toList ++ decimal pkgNum)) ++
    " >/dev/null 2>&1 &\n".toList

/-- The tokens of the redirections and the `&`. -/
def redirectTokens : List (Token Char) :=
  [.op [.great], .word "/dev/null".toList, .ioNumber "2".toList, .op [.great, .amp],
    .word "1".toList, .op [.amp], .newline]

/-- The tokens of `captureRest`. -/
def captureRestTokens (pkgNum : ℤ) : List (Token Char) :=
  captureOptions.map .word ++
    .word ("-n".toList ++ decimal pkgNum) :: redirectTokens

theorem fixedWord_number (pkgNum : ℤ) : FixedWord ("-n".toList ++ decimal pkgNum) :=
  .append (by decide +kernel) (plainText_decimal pkgNum)

theorem map_captureRestTokens (pkgNum : ℤ) : (captureRestTokens pkgNum).map utf8Token =
    (captureOptions.map BashProcess.input).map .word ++
      .word (BashProcess.input ("-n".toList ++ decimal pkgNum)) :: redirectTokens.map utf8Token := by
  have hopts : (captureOptions.map Token.word).map utf8Token =
      (captureOptions.map BashProcess.input).map .word := by
    decide +kernel
  delta captureRestTokens
  rw [List.map_append, List.map_cons, hopts, utf8Token, utf8_ascii (fixedWord_number pkgNum).1]

theorem input_captureRest (pkgNum : ℤ) : BashProcess.input (captureRest pkgNum) =
    (spaced 32 (captureOptions.map BashProcess.input) ++
      32 :: BashProcess.input ("-n".toList ++ decimal pkgNum)) ++
        BashProcess.input " >/dev/null 2>&1 &\n".toList := by
  delta captureRest
  rw [input_append, input_append, input_spaced]
  rfl

theorem tokensFrom_captureRest (pkgNum : ℤ) (w : List UInt8) (q : Bool)
    (ts : List (Token UInt8)) :
    tokensFrom byteClass ⟨.plain, some w, q, ts⟩ (BashProcess.input (captureRest pkgNum)) =
      some (ts ++ .word w :: (captureRestTokens pkgNum).map utf8Token) := by
  have hopts : ∀ w ∈ captureOptions.map BashProcess.input,
      PlainWord byteClass w := by decide +kernel
  have hredirect : tokensFrom byteClass {} (BashProcess.input ">/dev/null 2>&1 &\n".toList) =
      some (redirectTokens.map utf8Token) := rfl
  have hsuffix : BashProcess.input " >/dev/null 2>&1 &\n".toList =
      32 :: BashProcess.input ">/dev/null 2>&1 &\n".toList := rfl
  have hblank : ∀ (w : List UInt8) (q : Bool) (ts : List (Token UInt8)),
      step byteClass ⟨.plain, some w, q, ts⟩ 32 = some (State.behind (ts ++ [.word w]) {}) := by
    intro w q ts
    rw [State.behind, List.append_nil]
    rfl
  rw [input_captureRest, tokensFrom_append,
    run_spaced (by rfl) hopts (fixedWord_number pkgNum).plainWord, Option.bind_some, hsuffix,
    tokensFrom_cons, hblank, Option.bind_some, tokensFrom_behind, hredirect, map_captureRestTokens,
    Option.map_some]
  simp only [List.append_assoc, List.cons_append, List.nil_append]

theorem unquoting_captureRest (pkgNum : ℤ) :
    ∀ b ∈ BashProcess.input (captureRest pkgNum), (byteClass b).Unquoting := by
  have hopts : ∀ b ∈ spaced 32 (captureOptions.map BashProcess.input),
      (byteClass b).Unquoting := by decide +kernel
  have hsuffix : ∀ b ∈ BashProcess.input " >/dev/null 2>&1 &\n".toList,
      (byteClass b).Unquoting := by decide +kernel
  rw [input_captureRest]
  refine List.forall_mem_append.2 ⟨List.forall_mem_append.2 ⟨hopts, ?_⟩, hsuffix⟩
  refine List.forall_mem_cons.2 ⟨rfl, ?_⟩
  intro b hb
  exact CharClass.unquoting_of_plain ((fixedWord_number pkgNum).plainWord.plain b hb)

theorem countP_captureRest (pkgNum : ℤ) :
    (BashProcess.input (captureRest pkgNum)).countP (fun b => (byteClass b).Plain) ≤
      tokensSize ((captureRestTokens pkgNum).map utf8Token) := by
  have hopts : (spaced 32 (captureOptions.map BashProcess.input)).countP
      (fun b => (byteClass b).Plain) = 9 := rfl
  have hsuffix : (BashProcess.input " >/dev/null 2>&1 &\n".toList).countP
      (fun b => (byteClass b).Plain) = 11 := rfl
  have hopts' : tokensSize ((captureOptions.map
      BashProcess.input).map .word) = 9 := rfl
  have hredirect : tokensSize (redirectTokens.map utf8Token) = 11 := rfl
  have hnumber : (BashProcess.input ("-n".toList ++ decimal pkgNum)).countP
      (fun b => (byteClass b).Plain) ≤ _ := List.countP_le_length
  have hblank : (byteClass 32).Plain = false := rfl
  rw [input_captureRest, map_captureRestTokens, List.countP_append, List.countP_append, hopts,
    hsuffix, List.countP_cons, tokensSize_append, tokensSize_cons, hopts', hredirect]
  simp only [hblank, Bool.false_eq_true, if_false, Nat.add_zero, Token.size]
  omega

/-! ### The lines -/

theorem capture_iff (filter : List Char) (pkgNum : ℤ) :
    (RootLine.capture filter pkgNum).StaysInside ↔ QuotableAscii filter := by
  have hfront : run byteClass {} (BashProcess.input
      "LD_PRELOAD=libfakeioctl.so csiutil -m2 -f\"".toList) =
      some ⟨.dquoted, some (BashProcess.input "-f".toList), true,
        ([.word "LD_PRELOAD=libfakeioctl.so".toList, .word "csiutil".toList,
          .word "-m2".toList].map utf8Token)⟩ := by
    decide +kernel
  have hmid : "\" -l0 -t1 -d1 -n".toList = '\x22' ::
      (spaced ' ' captureOptions ++ ' ' :: "-n".toList) := by
    decide +kernel
  have hbytes : BashProcess.input (RootLine.capture filter pkgNum).cmd =
      BashProcess.input "LD_PRELOAD=libfakeioctl.so csiutil -m2 -f\"".toList ++
        (BashProcess.input filter ++ 34 :: BashProcess.input (captureRest pkgNum)) := by
    have hcmd : (RootLine.capture filter pkgNum).cmd =
        "LD_PRELOAD=libfakeioctl.so csiutil -m2 -f\"".toList ++
          (filter ++ '\x22' :: captureRest pkgNum) := by
      delta captureRest
      show ((((_ ++ filter) ++ "\" -l0 -t1 -d1 -n".toList) ++ decimal pkgNum) ++ _) = _
      rw [hmid]
      simp only [List.append_assoc, List.cons_append]
    rw [hcmd, input_append, input_append]
    rfl
  have hascii : utf8 "-f".toList = BashProcess.input "-f".toList := rfl
  have htokens : (RootLine.capture filter pkgNum).tokens.map utf8Token =
      [.word "LD_PRELOAD=libfakeioctl.so".toList, .word "csiutil".toList,
          .word "-m2".toList].map utf8Token ++
        .word (BashProcess.input "-f".toList ++ utf8 filter) ::
          (captureRestTokens pkgNum).map utf8Token := by
    rw [← hascii, ← utf8_append]
    rfl
  rw [RootLine.StaysInside, hbytes, htokens, tokenise, tokensFrom_append, hfront, Option.bind_some,
    tokenise_quoted_iff (by rfl) (unquoting_captureRest pkgNum) (countP_captureRest pkgNum)
      (tokensFrom_captureRest pkgNum) (length_input_le filter)]
  constructor
  · rintro ⟨hquotable, heq⟩
    have hascii := utf8_eq_input_iff.1 heq
    exact ⟨hascii, by rwa [quotableText_input hascii] at hquotable⟩
  · rintro ⟨hascii, hquotable⟩
    exact ⟨by rwa [quotableText_input hascii], utf8_ascii hascii⟩

/-- **A line is the command it is meant to be iff its text is safe**: plain where it is not quoted,
quotable where it is. -/
theorem stays_inside_iff (l : RootLine) : l.StaysInside ↔ l.Safe := by
  cases l with
  | captureChanspec chanspecStr =>
    exact line_iff "nexutil".toList "-k".toList ["-m2".toList] [] (by decide +kernel)
      (by decide +kernel) (by decide +kernel) (by decide) chanspecStr
  | capture filter pkgNum => exact capture_iff filter pkgNum
  | injectChanspec chanspecStr =>
    exact line_iff "nexutil".toList "-k".toList ["-Iwlan0".toList, "-m1".toList] []
      (by decide +kernel) (by decide +kernel) (by decide +kernel) (by decide) chanspecStr
  | inject ipc file =>
    have hline := line_iff "injectutil".toList ("-f".toList ++ "/sdcard/dot11pkts/".toList)
      ipc.words ["-l0".toList] (by decide +kernel) (by decide +kernel) ipc.fixedWord_words
      (by decide +kernel) file.name
    have hcmd : (RootLine.inject ipc file).cmd = "injectutil".toList ++
        ((spaced ' ' ipc.words ++ ' ' :: ("-f".toList ++ "/sdcard/dot11pkts/".toList)) ++
          (file.name ++ (spaced ' ' ["-l0".toList] ++ ['\n']))) := by
      refine (injectCommand_eq ipc _).trans ?_
      delta FileName.getAbsolutePath
      simp only [List.append_assoc, List.cons_append]
    have htokens : (RootLine.inject ipc file).tokens =
        (.word "injectutil".toList :: ipc.words.map .word) ++
          (.word (("-f".toList ++ "/sdcard/dot11pkts/".toList) ++ file.name) ::
            (["-l0".toList].map .word ++ [.newline])) := by
      rw [List.append_assoc]
      rfl
    rw [RootLine.StaysInside, hcmd, htokens]
    exact hline

/-- A chanspec that starts a command of its own. -/
theorem chanspec_starts_command :
    tokenise byteClass (BashProcess.input (RootLine.captureChanspec "1;reboot".toList).cmd) =
      some ([.word "nexutil".toList, .word "-m2".toList, .word "-k1".toList, .op [.semi],
        .word "reboot".toList, .newline].map utf8Token) ∧
      ¬ ∀ l : RootLine, l.StaysInside := by
  have htokens : tokenise byteClass
      (BashProcess.input (RootLine.captureChanspec "1;reboot".toList).cmd) =
      some ([.word "nexutil".toList, .word "-m2".toList, .word "-k1".toList, .op [.semi],
        .word "reboot".toList, .newline].map utf8Token) := rfl
  refine ⟨htokens, ?_⟩
  intro h
  have hinside := htokens.symm.trans (h (.captureChanspec "1;reboot".toList))
  revert hinside
  decide +kernel

end LocTag
