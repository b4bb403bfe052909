import LocTag.Lib.Receive
import LocTag.Params.CsiConf

/-!
# The command-line tool `makecsiparams`

`main` of `makecsiparams.c`: a loop over the options `getopt` returns fills a `struct csi_params`,
which is printed in base64 by a loop of its own.  `ether_aton` of the C library is a parameter.

`makecsiparams_agrees` compares it with the encoder of the app: for every order of the options of a
configuration the two build the same 34 bytes and the same line of text.  The loop's invariant is
`Filled`: every field holds what the options so far say of it.
-/

namespace LocTag

open Lib

/-! ### `struct csi_params` -/

/-- The fields of `struct csi_params` as `main` sets them. -/
structure CsiParamsStruct where
  chanspec : ℕ := 0
  csiCollect : UInt8 := 0
  coreNssMask : UInt8 := 0
  usePktFilter : UInt8 := 0
  firstPktByte : UInt8 := 0
  nMacAddr : ℕ := 0
  cmpSrcMac : List UInt8 := List.replicate 24 0
  delay : ℕ := 0

/-- The two bytes `st16le` writes. -/
def st16le (value : ℕ) : List UInt8 := [UInt8.ofNat (value % 256), UInt8.ofNat (value / 256 % 256)]

/-- The struct in memory, on a little-endian host. -/
def CsiParamsStruct.bytes (p : CsiParamsStruct) : List UInt8 :=
  st16le p.chanspec ++
    [p.csiCollect, p.coreNssMask, p.usePktFilter, p.firstPktByte] ++ st16le p.nMacAddr ++
    p.cmpSrcMac ++ st16le p.delay

/-! ### The options -/

/-- How `main` ends other than by printing the parameters. -/
inductive MainExit where
  | usage
  | error
  | undefined
  deriving DecidableEq

/-- The variables of `main`, and the offset of `plus80` in `wf_chspec_aton`. -/
structure MainState where
  p : CsiParamsStruct := {}
  enable : ℤ := 1
  coremask : ℤ := 0
  nssmask : ℤ := 0
  forceDelay : Bool := false
  nmac : ℕ := 0
  chanspec : ℕ := 0
  doraw : Bool := false
  plus80 : ℕ := 0

/-- `strtol`, with `endptr` at the start of a text that is no number. -/
def cStrtol (s : List Char) (b : ℕ) : ℤ × List Char := (strtol s b).getD (0, s)

/-- The tokens of `strtok(t, ",")`. -/
def strtok (t : List Char) : List (List Char) := (t.splitOn ',').filter fun s => !s.isEmpty

def MAX_MAC_ADDRESS : ℕ := 4

section Options

variable (etherAton : List Char → Option (List UInt8))

/-- The loop over the tokens of an option `-m`. -/
def addMacs (st : MainState) : List (List Char) → Except MainExit MainState
  | [] => .ok st
  | t :: ts =>
    if st.nmac ≥ MAX_MAC_ADDRESS then .error .error
    else match etherAton t with
      | none => .error .error
      | some ea => addMacs
          { st with
            p := { st.p with
              cmpSrcMac := st.p.cmpSrcMac.take (st.nmac * 6) ++ ea.take 6 ++
                st.p.cmpSrcMac.drop (st.nmac * 6 + 6)
              nMacAddr := st.nmac + 1 }
            nmac := st.nmac + 1 } ts

/-- One round of the option loop. -/
def handleOption (st : MainState) (o : Char × List Char) : Except MainExit MainState :=
  let (value, endptr) := cStrtol o.2 0
  match o.1 with
  | 'h' => .error .usage
  | 'r' => .ok { st with doraw := true }
  | 'e' => if endptr ≠ [] then .error .error else .ok { st with enable := value }
  | 'm' => addMacs etherAton st (strtok o.2)
  | 'b' =>
    if endptr ≠ [] ∨ value < 0 ∨ value > 255 then .error .error
    else .ok { st with p := { st.p with usePktFilter := 1, firstPktByte := byteOf value } }
  | 'c' => match wfChspecAton st.plus80 o.2 with
    | none => .error .undefined
    | some (plus80, chanspec) =>
      if chanspec = 0 then .error .error
      else .ok { st with p := { st.p with chanspec }, chanspec, plus80 }
  | 'C' =>
    if endptr ≠ [] ∨ ¬ (0 ≤ value ∧ value ≤ 15) then .error .error
    else .ok { st with
      p := { st.p with
        coreNssMask := UInt8.ofNat (st.p.coreNssMask.toNat / 16 * 16 + value.toNat) }
      coremask := value }
  | 'N' =>
    if endptr ≠ [] ∨ ¬ (0 ≤ value ∧ value ≤ 15) then .error .error
    else .ok { st with
      p := { st.p with
        coreNssMask := UInt8.ofNat (st.p.coreNssMask.toNat % 16 + value.toNat * 16) }
      nssmask := value }
  | 'd' =>
    if endptr ≠ [] ∨ value < 0 then .error .error
    else .ok { st with p := { st.p with delay := (value % 65536).toNat }, forceDelay := true }
  | _ => .error .error

/-- The number of bits set in a 32-bit word. -/
def countbit (val : ℕ) : ℕ := (List.range 32).countP val.testBit

def DEFAULT_DELAY_US : ℕ := 50

/-- `main` up to the printing: the struct, and whether it is printed raw. -/
def fillParams (os : List (Char × List Char)) : Except MainExit (CsiParamsStruct × Bool) :=
  if os = [] then .error .usage
  else match os.foldlM (handleOption etherAton) {} with
    | .error e => .error e
    | .ok st =>
      let p := { st.p with csiCollect := byteOf st.enable }
      if st.enable ≠ 0 ∧ (st.chanspec = 0 ∨ st.nssmask = 0 ∨ st.coremask = 0) then .error .error
      else if st.forceDelay = false ∧
          countbit (toU32 st.nssmask) * countbit (toU32 st.coremask) ≥ 12 then
        .ok ({ p with delay := DEFAULT_DELAY_US }, st.doraw)
      else .ok (p, st.doraw)

end Options

/-! ### Printing -/

/-- `char base64(uint32_t val)` -/
def base64Char (val : ℕ) : Char :=
  if val < 26 then Char.ofNat ('A'.toNat + val)
  else if val < 52 then Char.ofNat ('a'.toNat + (val - 26))
  else if val < 62 then Char.ofNat ('0'.toNat + (val - 52))
  else if val = 62 then '+'
  else '/'

/-- `n` rounds of the loop over `kk`, for `bits` bits of data. -/
def base64Group (bits val kk : ℕ) : ℕ → List Char
  | 0 => []
  | n + 1 => (if kk > bits then '=' else base64Char ((val >>> 18) &&& 0x3f)) ::
      base64Group bits ((val <<< 6) % 4294967296) (kk + 6) n

/-- The loop over `jj`. -/
def base64Loop : List UInt8 → List Char
  | [] => []
  | [a] => base64Group 8 (a.toNat <<< 16) 0 4
  | [a, b] => base64Group 16 (a.toNat <<< 16 ||| b.toNat <<< 8) 0 4
  | a :: b :: c :: rest =>
    base64Group 24 (a.toNat <<< 16 ||| b.toNat <<< 8 ||| c.toNat) 0 4 ++ base64Loop rest

/-- `main`: what it writes to its standard output, raw bytes or a line of text. -/
def makecsiparams (etherAton : List Char → Option (List UInt8)) (os : List (Char × List Char)) :
    Except MainExit (List UInt8 ⊕ List Char) :=
  (fillParams etherAton os).map fun (p, doraw) =>
    if doraw then .inl p.bytes else .inr (base64Loop p.bytes ++ ['\n'])

/-! ### The printing loop is base64 -/

theorem base64Char_eq (val : ℕ) : base64Char val = Base64.sextetChar val := by
  unfold base64Char Base64.sextetChar
  split_ifs with h1 h2 h3
  · rfl
  · rw [show 'a'.toNat + (val - 26) = 71 + val by simp; omega]
  · rw [show '0'.toNat + (val - 52) = val - 4 by simp; omega]
  · rfl
  · rfl

/-- A group of the loop is the four sextets of its 24 bits, padded past the data. -/
theorem base64Group_eq {val : ℕ} (h : val < 16777216) (bits : ℕ) : base64Group bits val 0 4 =
    [Base64.sextetChar (val / 262144),
      if 6 > bits then '=' else Base64.sextetChar (val / 4096 % 64),
      if 12 > bits then '=' else Base64.sextetChar (val / 64 % 64),
      if 18 > bits then '=' else Base64.sextetChar (val % 64)] := by
  have hand : ∀ n, n &&& 0x3f = n % 64 := fun n => Nat.and_two_pow_sub_one_eq_mod n 6
  simp only [base64Group, hand, Nat.shiftRight_eq_div_pow, Nat.shiftLeft_eq, base64Char_eq,
    Nat.zero_add, Nat.not_lt_zero, gt_iff_lt, if_false]
  have h0 : val / 2 ^ 18 % 64 = val / 262144 := by omega
  have h1 : val * 2 ^ 6 % 4294967296 / 2 ^ 18 % 64 = val / 4096 % 64 := by omega
  have h2 : val * 2 ^ 6 % 4294967296 * 2 ^ 6 % 4294967296 / 2 ^ 18 % 64 = val / 64 % 64 := by omega
  have h3 : val * 2 ^ 6 % 4294967296 * 2 ^ 6 % 4294967296 * 2 ^ 6 % 4294967296 / 2 ^ 18 % 64 =
      val % 64 := by omega
  rw [h0, h1, h2, h3]

/-- **The loop is the base64 of RFC 4648.** -/
theorem base64Loop_eq (bs : List UInt8) : base64Loop bs = Base64.encode bs := by
  induction bs using base64Loop.induct with
  | case1 => rfl
  | case2 a =>
    have ha := a.toNat_lt
    have hval : a.toNat <<< 16 = a.toNat * 65536 := Nat.shiftLeft_eq _ _
    rw [base64Loop, hval, base64Group_eq (by omega), Base64.encode]
    simp only [gt_iff_lt, Nat.reduceLT, if_false, if_true]
    rw [show a.toNat * 65536 / 262144 = a.toNat / 4 by omega,
      show a.toNat * 65536 / 4096 % 64 = a.toNat % 4 * 16 by omega]
  | case3 a b =>
    have ha := a.toNat_lt
    have hb := b.toNat_lt
    have hval : a.toNat <<< 16 ||| b.toNat <<< 8 = a.toNat * 65536 + b.toNat * 256 := by
      rw [← Nat.shiftLeft_add_eq_or_of_lt (by rw [Nat.shiftLeft_eq]; omega), Nat.shiftLeft_eq,
        Nat.shiftLeft_eq]
    rw [base64Loop, hval, base64Group_eq (by omega), Base64.encode]
    simp only [gt_iff_lt, Nat.reduceLT, if_false, if_true]
    rw [show (a.toNat * 65536 + b.toNat * 256) / 262144 = a.toNat / 4 by omega,
      show (a.toNat * 65536 + b.toNat * 256) / 4096 % 64 = a.toNat % 4 * 16 + b.toNat / 16 by omega,
      show (a.toNat * 65536 + b.toNat * 256) / 64 % 64 = b.toNat % 16 * 4 by omega]
  | case4 a b c rest ih =>
    have ha := a.toNat_lt
    have hb := b.toNat_lt
    have hc := c.toNat_lt
    have hval : a.toNat <<< 16 ||| b.toNat <<< 8 ||| c.toNat =
        a.toNat * 65536 + b.toNat * 256 + c.toNat := by
      rw [← Nat.shiftLeft_add_eq_or_of_lt (by rw [Nat.shiftLeft_eq]; omega), Nat.shiftLeft_eq,
        Nat.shiftLeft_eq, show a.toNat * 2 ^ 16 + b.toNat * 2 ^ 8 =
          (a.toNat * 256 + b.toNat) <<< 8 by rw [Nat.shiftLeft_eq]; ring,
        ← Nat.shiftLeft_add_eq_or_of_lt (by omega), Nat.shiftLeft_eq]
      ring
    rw [base64Loop, hval, base64Group_eq (by omega), Base64.encode, ih]
    simp only [gt_iff_lt, Nat.reduceLT, if_false, List.cons_append, List.nil_append]
    rw [show (a.toNat * 65536 + b.toNat * 256 + c.toNat) / 262144 = a.toNat / 4 by omega,
      show (a.toNat * 65536 + b.toNat * 256 + c.toNat) / 4096 % 64 =
        a.toNat % 4 * 16 + b.toNat / 16 by omega,
      show (a.toNat * 65536 + b.toNat * 256 + c.toNat) / 64 % 64 =
        b.toNat % 16 * 4 + c.toNat / 64 by omega,
      show (a.toNat * 65536 + b.toNat * 256 + c.toNat) % 64 = c.toNat % 64 by omega]

/-! ### The options of a configuration -/

/-- The option `ch` is among `os`. -/
def given (ch : Char) (os : List (Char × List Char)) : Bool := os.any fun o => o.1 == ch

/-- The addresses the options name, in order. -/
def macTexts (os : List (Char × List Char)) : List (List Char) :=
  os.flatMap fun o => if o.1 = 'm' then strtok o.2 else []

/-- An option that says of `conf` what is the case; its number may be written in any way `strtol`
reads to the end. -/
inductive OptionFor (conf : CsiConf) : Char × List Char → Prop
  | enable (t : List Char) : strtol t 0 = some (if conf.csiCollect then 1 else 0, []) →
      OptionFor conf ('e', t)
  | chanspec : OptionFor conf ('c', conf.chanspecStr)
  | coremask (t : List Char) : strtol t 0 = some (conf.coreMask, []) → OptionFor conf ('C', t)
  | nssmask (t : List Char) : strtol t 0 = some (conf.nssMask, []) → OptionFor conf ('N', t)
  | addr (t : List Char) : OptionFor conf ('m', t)
  | byte (t : List Char) : conf.usePktFilter = true →
      strtol t 0 = some ((conf.firstPktByte.toNat : ℤ), []) → OptionFor conf ('b', t)
  | delay (t : List Char) : strtol t 0 = some (conf.delay, []) → OptionFor conf ('d', t)

/-- The options of a configuration, in some order: all it needs, and the addresses in theirs. -/
structure OptionsOf (conf : CsiConf) (os : List (Char × List Char)) : Prop where
  each : ∀ o ∈ os, OptionFor conf o
  enable : given 'e' os = true ∨ conf.csiCollect = true
  chanspec : given 'c' os = true
  coremask : given 'C' os = true
  nssmask : given 'N' os = true
  byte : conf.usePktFilter = true → given 'b' os = true
  delay : given 'd' os = true
  addrs : macTexts os = conf.cmpSrcMacs

/-- A configuration both programs can encode; `c` is its chanspec. -/
structure ValidConf (conf : CsiConf) (c : ℕ) : Prop where
  chanspec : wfChspecAton 0 conf.chanspecStr = some (0, c) ∧ c ≠ 0
  nssMask : 1 ≤ conf.nssMask ∧ conf.nssMask ≤ 15
  coreMask : 1 ≤ conf.coreMask ∧ conf.coreMask ≤ 15
  macs : ∀ t ∈ conf.cmpSrcMacs, ∃ mac, MacText t mac
  count : conf.cmpSrcMacs.length ≤ 4
  firstPktByte : conf.usePktFilter = false → conf.firstPktByte = 0
  delay : 0 ≤ conf.delay ∧ conf.delay ≤ 65535

/-- The address area holds the addresses of `ts`. -/
def MacsFilled (ts : List (List Char)) (st : MainState) : Prop :=
  ∃ macs, List.Forall₂ MacText ts macs ∧ st.nmac = macs.length ∧ st.p.nMacAddr = macs.length ∧
    st.p.cmpSrcMac = macs.flatten ++ List.replicate (24 - 6 * macs.length) 0

/-- **The invariant of the option loop**: after the options `done` every variable holds what they say
of the configuration. -/
structure Filled (conf : CsiConf) (c : ℕ) (done : List (Char × List Char)) (st : MainState) :
    Prop where
  enable : st.enable = if given 'e' done then (if conf.csiCollect then 1 else 0) else 1
  chanspec : st.chanspec = if given 'c' done then c else 0
  pChanspec : st.p.chanspec = if given 'c' done then c else 0
  coremask : st.coremask = if given 'C' done then conf.coreMask else 0
  nssmask : st.nssmask = if given 'N' done then conf.nssMask else 0
  mask : st.p.coreNssMask.toNat = st.nssmask.toNat * 16 + st.coremask.toNat
  usePktFilter : st.p.usePktFilter = if given 'b' done then 1 else 0
  firstPktByte : st.p.firstPktByte = if given 'b' done then conf.firstPktByte else 0
  delay : st.p.delay = if given 'd' done then conf.delay.toNat else 0
  forceDelay : st.forceDelay = given 'd' done
  doraw : st.doraw = false
  plus80 : st.plus80 = 0
  macs : MacsFilled (macTexts done) st

section Steps

variable {etherAton : List Char → Option (List UInt8)} {conf : CsiConf} {c : ℕ}
  {done : List (Char × List Char)} {st : MainState}

@[simp] theorem given_append (ch x : Char) (t : List Char) :
    given ch (done ++ [(x, t)]) = (given ch done || x == ch) := by
  simp [given]

@[simp] theorem macTexts_append (o : Char × List Char) :
    macTexts (done ++ [o]) = macTexts done ++ (if o.1 = 'm' then strtok o.2 else []) := by
  simp [macTexts]

theorem cStrtol_eq {t : List Char} {v : ℤ} (h : strtol t 0 = some (v, [])) :
    cStrtol t 0 = (v, []) := by
  rw [cStrtol, h, Option.getD_some]

/-- The masks the invariant knows are nibbles. -/
theorem Filled.nibbles (h : Filled conf c done st) (hv : ValidConf conf c) :
    (0 ≤ st.nssmask ∧ st.nssmask ≤ 15) ∧ 0 ≤ st.coremask ∧ st.coremask ≤ 15 := by
  have hn := hv.nssMask
  have hk := hv.coreMask
  rw [h.nssmask, h.coremask]
  constructor <;> split <;> omega

theorem filled_init : Filled conf c [] {} := by
  refine ⟨rfl, rfl, rfl, rfl, rfl, rfl, rfl, rfl, rfl, rfl, rfl, rfl, [], .nil, rfl, rfl, rfl⟩

/-- `memcpy` of an address behind the ones there are. -/
theorem memcpy_area {front mac : List UInt8} (hmac : mac.length = 6) (r : ℕ) :
    (front ++ List.replicate (6 + r) 0).take front.length ++ mac.take 6 ++
      (front ++ List.replicate (6 + r) 0).drop (front.length + 6) =
    front ++ mac ++ List.replicate r 0 := by
  rw [List.take_left, ← hmac, List.take_length, ← List.replicate_append_replicate,
    ← List.append_assoc, List.drop_left' (by simp)]

theorem macsFilled_step {t : List Char} {mac : List UInt8} {ts : List (List Char)}
    (hmac : MacText t mac) (hlen : ts.length < 4) (h : MacsFilled ts st) :
    st.nmac < MAX_MAC_ADDRESS ∧ MacsFilled (ts ++ [t])
      { st with
        p := { st.p with
          cmpSrcMac := st.p.cmpSrcMac.take (st.nmac * 6) ++ mac.take 6 ++
            st.p.cmpSrcMac.drop (st.nmac * 6 + 6)
          nMacAddr := st.nmac + 1 }
        nmac := st.nmac + 1 } := by
  obtain ⟨macs, hmacs, hn, -, harea⟩ := h
  have hcount := hmacs.length_eq
  have hlast : List.Forall₂ MacText [t] [mac] := .cons hmac .nil
  refine ⟨by unfold MAX_MAC_ADDRESS; omega, macs ++ [mac], List.rel_append hmacs hlast,
    by simp [hn], by simp [hn], ?_⟩
  have hk : st.nmac * 6 = macs.flatten.length := by rw [hn, length_flatten_macs hmacs]; ring
  have hz : 24 - 6 * macs.length = 6 + (24 - 6 * (macs.length + 1)) := by omega
  simp only [harea, hk, hz, memcpy_area hmac.1]
  simp

/-- The loop over the tokens takes addresses as they should be, as long as there is room. -/
theorem addMacs_filled (hEther : ∀ t mac, MacText t mac → etherAton t = some mac)
    {ts ts' : List (List Char)} (hts : ∀ t ∈ ts, ∃ mac, MacText t mac)
    (hlen : ts'.length + ts.length ≤ 4) (h : MacsFilled ts' st) :
    ∃ cmpSrcMac nMacAddr nmac,
      addMacs etherAton st ts = .ok { st with p := { st.p with cmpSrcMac, nMacAddr }, nmac } ∧
      MacsFilled (ts' ++ ts) { st with p := { st.p with cmpSrcMac, nMacAddr }, nmac } := by
  induction ts generalizing st ts' with
  | nil => exact ⟨_, _, _, rfl, by rwa [List.append_nil]⟩
  | cons t ts ih =>
    obtain ⟨⟨mac, hmac⟩, hrest⟩ := List.forall_mem_cons.1 hts
    rw [List.length_cons] at hlen
    obtain ⟨hroom, hstep⟩ := macsFilled_step hmac (by omega) h
    obtain ⟨area, n, nmac, hok, hfilled⟩ := ih hrest (by simp; omega) hstep
    refine ⟨area, n, nmac, ?_, by simpa using hfilled⟩
    rw [addMacs, if_neg (by omega), hEther t mac hmac]
    exact hok

/-- **One round of the option loop keeps the invariant.** -/
theorem filled_step (hEther : ∀ t mac, MacText t mac → etherAton t = some mac)
    (hv : ValidConf conf c) {o : Char × List Char} (ho : OptionFor conf o)
    (hpre : macTexts (done ++ [o]) <+: conf.cmpSrcMacs) (h : Filled conf c done st) :
    ∃ st', handleOption etherAton st o = .ok st' ∧ Filled conf c (done ++ [o]) st' := by
  obtain ⟨⟨hn0, hn15⟩, hk0, hk15⟩ := h.nibbles hv
  obtain ⟨he, hc, hpc, hC, hN, hm, hu, hb, hd, hfd, hr, hp, hmacs⟩ := h
  cases ho with
  | enable t ht =>
    refine ⟨{ st with enable := if conf.csiCollect then 1 else 0 }, ?_, ?_⟩
    · simp [handleOption, cStrtol_eq ht]
    · exact ⟨by simp, by simpa using hc, by simpa using hpc, by simpa using hC, by simpa using hN,
        hm, by simpa using hu, by simpa using hb, by simpa using hd, by simpa using hfd, hr, hp,
        by simpa [MacsFilled] using hmacs⟩
  | chanspec =>
    refine ⟨{ st with p := { st.p with chanspec := c }, chanspec := c, plus80 := 0 }, ?_, ?_⟩
    · simp [handleOption, hp, hv.chanspec.1, hv.chanspec.2]
    · exact ⟨by simpa using he, by simp, by simp, by simpa using hC, by simpa using hN, hm,
        by simpa using hu, by simpa using hb, by simpa using hd, by simpa using hfd, hr, rfl,
        by simpa [MacsFilled] using hmacs⟩
  | coremask t ht =>
    obtain ⟨h1, h15⟩ := hv.coreMask
    refine ⟨{ st with
      p := { st.p with
        coreNssMask := UInt8.ofNat (st.p.coreNssMask.toNat / 16 * 16 + conf.coreMask.toNat) }
      coremask := conf.coreMask }, ?_, ?_⟩
    · simp only [handleOption, cStrtol_eq ht]
      rw [if_neg (by simp; omega)]
    · refine ⟨by simpa using he, by simpa using hc, by simpa using hpc, by simp,
        by simpa using hN, ?_, by simpa using hu, by simpa using hb, by simpa using hd,
        by simpa using hfd, hr, hp, by simpa [MacsFilled] using hmacs⟩
      simp only [UInt8.toNat_ofNat']
      omega
  | nssmask t ht =>
    obtain ⟨h1, h15⟩ := hv.nssMask
    refine ⟨{ st with
      p := { st.p with
        coreNssMask := UInt8.ofNat (st.p.coreNssMask.toNat % 16 + conf.nssMask.toNat * 16) }
      nssmask := conf.nssMask }, ?_, ?_⟩
    · simp only [handleOption, cStrtol_eq ht]
      rw [if_neg (by simp; omega)]
    · refine ⟨by simpa using he, by simpa using hc, by simpa using hpc, by simpa using hC,
        by simp, ?_, by simpa using hu, by simpa using hb, by simpa using hd,
        by simpa using hfd, hr, hp, by simpa [MacsFilled] using hmacs⟩
      simp only [UInt8.toNat_ofNat']
      omega
  | addr t =>
    simp only [macTexts_append, if_true] at hpre
    have hts : ∀ s ∈ strtok t, ∃ mac, MacText s mac :=
      fun s hs => hv.macs s (hpre.subset (List.mem_append_right _ hs))
    have hlen : (macTexts done).length + (strtok t).length ≤ 4 := by
      have := hpre.length_le
      have := hv.count
      rw [List.length_append] at *
      omega
    obtain ⟨area, n, nmac, hok, hfilled⟩ := addMacs_filled hEther hts hlen hmacs
    refine ⟨_, hok, ?_⟩
    exact ⟨by simpa using he, by simpa using hc, by simpa using hpc, by simpa using hC,
      by simpa using hN, hm, by simpa using hu, by simpa using hb, by simpa using hd,
      by simpa using hfd, hr, hp, by simpa using hfilled⟩
  | byte t hset ht =>
    have hlt := conf.firstPktByte.toNat_lt
    refine ⟨{ st with p := { st.p with
      usePktFilter := 1, firstPktByte := byteOf conf.firstPktByte.toNat } }, ?_, ?_⟩
    · simp only [handleOption, cStrtol_eq ht]
      rw [if_neg (by simp; omega)]
    · exact ⟨by simpa using he, by simpa using hc, by simpa using hpc, by simpa using hC,
        by simpa using hN, hm, by simp, by simp [byteOf_toNat], by simpa using hd,
        by simpa using hfd, hr, hp, by simpa [MacsFilled] using hmacs⟩
  | delay t ht =>
    obtain ⟨h0, hmax⟩ := hv.delay
    refine ⟨{ st with
      p := { st.p with delay := (conf.delay % 65536).toNat }, forceDelay := true }, ?_, ?_⟩
    · simp only [handleOption, cStrtol_eq ht]
      rw [if_neg (by simp; omega)]
    · refine ⟨by simpa using he, by simpa using hc, by simpa using hpc, by simpa using hC,
        by simpa using hN, hm, by simpa using hu, by simpa using hb, ?_, by simp, hr, hp,
        by simpa [MacsFilled] using hmacs⟩
      simp only [given_append, BEq.rfl, Bool.or_true, if_true]
      omega

/-- **The option loop takes the options of a configuration in any order.** -/
theorem filled_run (hEther : ∀ t mac, MacText t mac → etherAton t = some mac)
    (hv : ValidConf conf c) {os : List (Char × List Char)} (hos : OptionsOf conf os) :
    ∃ st, os.foldlM (handleOption etherAton) {} = .ok st ∧ Filled conf c os st := by
  refine foldlM_progress os ?_ filled_init
  intro done o rest st has hI
  have hmem : o ∈ os := by rw [has]; simp
  refine filled_step hEther hv (hos.each o hmem) ⟨macTexts rest, ?_⟩ hI
  rw [← hos.addrs, has]
  simp [macTexts]

end Steps

/-! ### The two programs -/

section Agreement

variable {etherAton : List Char → Option (List UInt8)} {conf : CsiConf} {c : ℕ}
  {os : List (Char × List Char)}

theorem st16le_eq (n : ℕ) : st16le n = [byteOf n, byteOf ((n : ℤ) / 256)] := by
  have h0 : ((n : ℤ) % 256).toNat = n % 256 := by omega
  have h1 : ((n : ℤ) / 256 % 256).toNat = n / 256 % 256 := by omega
  rw [st16le, byteOf, byteOf, h0, h1]

/-- A byte filter is given iff there is one. -/
theorem OptionsOf.given_byte (hos : OptionsOf conf os) : given 'b' os = conf.usePktFilter := by
  cases hset : conf.usePktFilter with
  | true => exact hos.byte hset
  | false =>
    rw [← Bool.not_eq_true]
    intro hgiven
    obtain ⟨⟨ch, t⟩, ho, hch⟩ := List.any_eq_true.1 hgiven
    obtain rfl : ch = 'b' := by simpa using hch
    cases hos.each _ ho with
    | byte _ hset' _ =>
      rw [hset] at hset'
      cases hset'

/-- The fields of the struct, once all options of the configuration are given. -/
theorem filled_fields {st : MainState} (h : Filled conf c os st) (hos : OptionsOf conf os)
    (hv : ValidConf conf c) :
    byteOf st.enable = (if conf.csiCollect then 1 else 0) ∧ st.p.chanspec = c ∧
    st.p.coreNssMask = byteOf (conf.nssMask % 16 * 16 + conf.coreMask % 16) ∧
    st.p.usePktFilter = (if conf.usePktFilter then 1 else 0) ∧
    st.p.firstPktByte = conf.firstPktByte ∧ st.p.delay = conf.delay.toNat := by
  obtain ⟨hn1, hn15⟩ := hv.nssMask
  obtain ⟨hk1, hk15⟩ := hv.coreMask
  refine ⟨?_, by rw [h.pChanspec, hos.chanspec, if_pos rfl], ?_, ?_, ?_,
    by rw [h.delay, hos.delay, if_pos rfl]⟩
  · rw [h.enable]
    rcases hos.enable with he | hcollect
    · rw [he, if_pos rfl]
      split <;> rfl
    · rw [hcollect]
      split <;> rfl
  · have hmask := h.mask
    rw [h.nssmask, h.coremask, hos.nssmask, hos.coremask, if_pos rfl, if_pos rfl] at hmask
    rw [← UInt8.toNat_inj, hmask, toNat_byteOf]
    omega
  · rw [h.usePktFilter, hos.given_byte]
  · rw [h.firstPktByte, hos.given_byte]
    cases hset : conf.usePktFilter with
    | true => rfl
    | false => exact (hv.firstPktByte hset).symm

/-- The struct the options of a configuration make is the block of the app. -/
theorem fillParams_eq_ok (U : UnicodeTables)
    (hEther : ∀ t mac, MacText t mac → etherAton t = some mac) (hv : ValidConf conf c)
    (hos : OptionsOf conf os) :
    ∃ p, fillParams etherAton os = .ok (p, false) ∧
      csiConfBytes U conf c = .ok (some p.bytes) := by
  obtain ⟨st, hrun, h⟩ := filled_run hEther hv hos
  obtain ⟨macs, hmacs, -, hna, harea⟩ := h.macs
  obtain ⟨he, hc, hm, hu, hb, hd⟩ := filled_fields h hos hv
  rw [hos.addrs] at hmacs
  have hcount := hmacs.length_eq
  have hfour := hv.count
  refine ⟨{ st.p with csiCollect := byteOf st.enable }, ?_, ?_⟩
  · have hne : os ≠ [] := by
      rintro rfl
      exact absurd hos.chanspec (by decide)
    have hn1 := hv.nssMask
    have hk1 := hv.coreMask
    have hc0 := hv.chanspec.2
    rw [fillParams, if_neg hne, hrun]
    simp only [h.forceDelay, h.doraw, hos.delay, h.chanspec, hos.chanspec, h.nssmask, hos.nssmask,
      h.coremask, hos.coremask, if_true]
    rw [if_neg (by omega), if_neg (by simp)]
  · rw [csiConfBytes_eq_ok hmacs (by omega), csiConfFront]
    have h0 : ((conf.delay.toNat : ℤ)) = conf.delay := by have := hv.delay; omega
    simp only [CsiParamsStruct.bytes, st16le_eq, he, hc, hm, hu, hb, hd, hna, harea, h0,
      csiConfHeader, hcount]
    have hhigh : byteOf ((macs.length : ℤ) / 256) = 0 := by
      rw [show (macs.length : ℤ) / 256 = 0 by omega]
      rfl
    simp [hhigh]

end Agreement

/-- **The encoder of the app agrees with the command-line tool**: the same 34 bytes and the same line
of text, for every configuration and every order of its options. -/
theorem makecsiparams_agrees (U : UnicodeTables) (st : ℕ)
    (etherAton : List Char → Option (List UInt8))
    (hEther : ∀ t mac, MacText t mac → etherAton t = some mac)
    (conf : CsiConf) (c : ℕ) (hv : ValidConf conf c) (os : List (Char × List Char))
    (hos : OptionsOf conf os) :
    ∃ p line, fillParams etherAton os = .ok (p, false) ∧ p.bytes.length = 34 ∧
      csiConfBytes U conf c = .ok (some p.bytes) ∧
      makecsiparams etherAton os = .ok (.inr line) ∧
      toBase64 U st conf = some (st, .ok (some line)) := by
  obtain ⟨p, hp, hbytes⟩ := fillParams_eq_ok U hEther hv hos
  have hst := (wfChspecAton_ne_zero hv.chanspec.1 hv.chanspec.2).2 st
  refine ⟨p, base64Loop p.bytes ++ ['\n'], hp, ?_, hbytes, ?_, ?_⟩
  · obtain ⟨macs, hmacs, -⟩ := (filled_run hEther hv hos).choose_spec.2.macs
    rw [hos.addrs] at hmacs
    have h4 : macs.length ≤ 4 := by rw [← hmacs.length_eq]; exact hv.count
    rw [csiConfBytes_eq_ok hmacs h4] at hbytes
    have hbytes := Option.some.inj (Except.ok.inj hbytes)
    rw [← hbytes, List.length_append, length_csiConfFront hmacs h4]
    rfl
  · rw [makecsiparams, hp]
    rfl
  · rw [toBase64, hst]
    simp only [hbytes, base64Loop_eq]
    rfl

/-! ### A configuration -/

/-- The octets of a text with six of them. -/
def macOctets (t : List Char) : Option (List UInt8) :=
  if (t.splitOn ':').length = 6 then (t.splitOn ':').mapM hexOctet else none

theorem macOctets_eq (t : List Char) (mac : List UInt8) (h : MacText t mac) :
    macOctets t = some mac := by
  have hmap : ∀ {ss : List (List Char)} {bs : List UInt8},
      List.Forall₂ (fun s b => hexOctet s = some b) ss bs → ss.mapM hexOctet = some bs := by
    intro ss bs hss
    induction hss with
    | nil => rfl
    | cons hs _ ih => simp [List.mapM_cons, hs, ih]
  rw [macOctets, if_pos (by rw [h.2.length_eq, h.1]), hmap h.2]

/-- Channel 36/80 with one address and a byte filter. -/
def sampleConf : CsiConf :=
  { chanspecStr := "36/80".toList, csiCollect := true, nssMask := 1, coreMask := 5,
    usePktFilter := true, firstPktByte := 0x88, cmpSrcMacs := ["0:11:22:33:44:5a".toList],
    delay := 50 }

def sampleOptions : List (Char × List Char) :=
  [('m', "0:11:22:33:44:5a".toList), ('b', "0x88".toList), ('C', "0x5".toList),
    ('c', "36/80".toList), ('d', "50".toList), ('N', "1".toList)]

theorem sampleConf_valid : ValidConf sampleConf 0xe02a := by
  refine ⟨by decide +kernel, by decide, by decide, ?_, by decide, by decide, by decide⟩
  intro t ht
  obtain rfl := List.mem_singleton.1 ht
  refine ⟨[0x00, 0x11, 0x22, 0x33, 0x44, 0x5a], rfl, ?_⟩
  have hsplit : "0:11:22:33:44:5a".toList.splitOn ':' =
      [['0'], ['1', '1'], ['2', '2'], ['3', '3'], ['4', '4'], ['5', 'a']] := rfl
  rw [hsplit]
  exact .cons rfl (.cons rfl (.cons rfl (.cons rfl (.cons rfl (.cons rfl .nil)))))

theorem sampleOptions_of : OptionsOf sampleConf sampleOptions where
  each := by
    simp only [sampleOptions, List.forall_mem_cons, List.not_mem_nil, false_implies, implies_true,
      and_true]
    exact ⟨.addr _, .byte _ rfl rfl, .coremask _ rfl, .chanspec,
      .delay _ rfl, .nssmask _ rfl⟩
  enable := .inr rfl
  chanspec := rfl
  coremask := rfl
  nssmask := rfl
  byte := fun _ => rfl
  delay := rfl
  addrs := rfl

theorem makecsiparams_agrees_sample :
    ∃ p line, fillParams macOctets sampleOptions = .ok (p, false) ∧ p.bytes.length = 34 ∧
      csiConfBytes ⟨fun _ => false, fun _ => none⟩ sampleConf 0xe02a = .ok (some p.bytes) ∧
      makecsiparams macOctets sampleOptions = .ok (.inr line) ∧
      toBase64 ⟨fun _ => false, fun _ => none⟩ 0 sampleConf = some (0, .ok (some line)) :=
  makecsiparams_agrees ⟨fun _ => false, fun _ => none⟩ 0 macOctets macOctets_eq sampleConf 0xe02a
    sampleConf_valid sampleOptions sampleOptions_of

end LocTag
