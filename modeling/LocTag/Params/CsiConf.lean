import LocTag.Java
import LocTag.Lib.Base64
import LocTag.Params.Chanspec

/-!
# The CSI configuration of the app

`CsiConf.java`: the settings of a CSI session and `toBase64`, which packs them into the 34 bytes of
`struct csi_params` and encodes them.

`toBase64` answers `null` for an address that does not parse and throws
`ArrayIndexOutOfBoundsException` where a fifth address runs over the array
(`toBase64_eq_error_iff`); `putMacs_eq_ok` is its result for addresses as they should be.
-/

namespace LocTag

open Lib

/-! ### Java library functions -/

/-- What the runtime's Unicode tables say of characters beyond ASCII: `\\w` of the regular expression
engine, and `Character.digit(c, 16)`. -/
structure UnicodeTables where
  word : Char → Bool
  digit : Char → Option ℕ

section JavaLib

variable (U : UnicodeTables)

/-- `\\w` -/
def isWord (c : Char) : Bool := if c.toNat < 128 then c.isAlphanum || c == '_' else U.word c

/-- `Character.digit(c, 16)` -/
def characterDigit (c : Char) : Option ℕ := if c.toNat < 128 then digitIn 16 c else U.digit c

def parseDigits (acc : ℕ) : List Char → Option ℕ
  | [] => some acc
  | c :: s => (characterDigit U c).bind fun d => parseDigits (acc * 16 + d) s

/-- `Integer.parseInt(s, 16)`, `none` for a `NumberFormatException`. -/
def parseInt16 (s : List Char) : Option ℤ :=
  let st := readSign s
  if st.2 = [] then none
  else (parseDigits U 0 st.2).bind fun n =>
    if st.1 then (if n ≤ 2147483648 then some (-(n : ℤ)) else none)
    else if n < 2147483648 then some (n : ℤ) else none

/-- A cast to `byte`. -/
def byteOf (x : ℤ) : UInt8 := UInt8.ofNat (x % 256).toNat

/-- `Base64.encodeToString(buff, Base64.DEFAULT)` of at most 57 bytes, which take one line. -/
def encodeToString (buff : List UInt8) : List Char := Base64.encode buff ++ ['\n']

end JavaLib

/-! ### The settings -/

/-- `CsiConf.java` -/
structure CsiConf where
  chanspecStr : List Char
  csiCollect : Bool := false
  nssMask : ℤ
  coreMask : ℤ
  usePktFilter : Bool := false
  firstPktByte : UInt8 := 0
  cmpSrcMacs : List (List Char) := []
  delay : ℤ := 0

namespace CsiConf

variable (U : UnicodeTables) (conf : CsiConf)

def setEnable (csiCollect : Bool) : CsiConf := { conf with csiCollect }

def setFirstPktByteFilter (firstPktByte : UInt8) : CsiConf :=
  { conf with firstPktByte, usePktFilter := true }

/-- `setSrcMacFilter(String)`; a text without any word character names no address. -/
def setSrcMacFilter (srcMacsStr : List Char) : CsiConf :=
  { conf with cmpSrcMacs := if srcMacsStr.all fun c => !isWord U c then []
      else javaSplit '|' srcMacsStr }

def setDelay (delay : ℤ) : CsiConf := { conf with delay }

end CsiConf

/-! ### `toBase64` -/

section Encoder

variable (U : UnicodeTables)

/-- The inner loop of `toBase64` from index `p` on; the right-hand side of an assignment is evaluated
before the index is checked. -/
def putOctets (buff : List UInt8) (p : ℕ) : List (List Char) → Except JavaException (List UInt8)
  | [] => .ok buff
  | s :: ss => match parseInt16 U s with
    | none => .error .numberFormat
    | some v =>
      if p < buff.length then putOctets (buff.set p (byteOf v)) (p + 1) ss
      else .error .arrayIndexOutOfBounds

/-- The outer loop from address `i` on; `none` where it returns `null`. -/
def putMacs (buff : List UInt8) (i : ℕ) :
    List (List Char) → Except JavaException (Option (List UInt8))
  | [] => .ok (some buff)
  | mac :: macs =>
    if (javaSplit ':' mac).length ≠ 6 then .ok none
    else match putOctets U buff (8 + i * 6) (javaSplit ':' mac) with
      | .error e => .error e
      | .ok buff => putMacs buff (i + 1) macs

/-- The first eight bytes. -/
def csiConfHeader (conf : CsiConf) (chanspec : ℕ) : List UInt8 :=
  [byteOf chanspec, byteOf (chanspec / 256), if conf.csiCollect then 1 else 0,
    byteOf (conf.nssMask % 16 * 16 + conf.coreMask % 16), if conf.usePktFilter then 1 else 0,
    conf.firstPktByte, byteOf conf.cmpSrcMacs.length, 0]

/-- The array `buff` of `toBase64` for a chanspec; `none` for a result of `null`. -/
def csiConfBytes (conf : CsiConf) (chanspec : ℕ) : Except JavaException (Option (List UInt8)) :=
  match putMacs U (csiConfHeader conf chanspec ++ List.replicate 26 0) 0 conf.cmpSrcMacs with
  | .error .numberFormat => .ok none
  | .error e => .error e
  | .ok none => .ok none
  | .ok (some buff) =>
    .ok (some ((buff.set 32 (byteOf conf.delay)).set 33 (byteOf (conf.delay / 256))))

/-- `toBase64`, with the state of `wf_chspec_aton`. -/
def toBase64 (st : ℕ) (conf : CsiConf) : Option (ℕ × Except JavaException (Option (List Char))) :=
  match wfChspecAton st conf.chanspecStr with
  | none => none
  | some (st', chanspec) =>
    some (st', (csiConfBytes U conf chanspec).map fun r => r.map encodeToString)

end Encoder

/-! ### Addresses as they should be -/

def isHexDigit (c : Char) : Bool :=
  decide ('0' ≤ c ∧ c ≤ '9') || decide ('a' ≤ c ∧ c ≤ 'f') || decide ('A' ≤ c ∧ c ≤ 'F')

/-- `s.matches("[0-9a-fA-F]{1,2}")` -/
def matchesByte (s : List Char) : Prop := (s.length = 1 ∨ s.length = 2) ∧ s.all isHexDigit

instance (s : List Char) : Decidable (matchesByte s) := by unfold matchesByte; infer_instance

/-- An octet of an address: one or two hexadecimal digits. -/
def hexOctet (s : List Char) : Option UInt8 :=
  if matchesByte s then some (UInt8.ofNat (readDigits 16 0 s).1) else none

/-- The text of an address: six octets with colons between them. -/
def MacText (t : List Char) (mac : List UInt8) : Prop :=
  mac.length = 6 ∧ List.Forall₂ (fun s b => hexOctet s = some b) (t.splitOn ':') mac

section Octets

variable {U : UnicodeTables} {s : List Char} {b : UInt8}

theorem digitIn_of_isHexDigit {c : Char} (h : isHexDigit c) : (digitIn 16 c).isSome := by
  have hle : ∀ x y : Char, x ≤ y ↔ x.toNat ≤ y.toNat := fun _ _ => Iff.rfl
  simp only [isHexDigit, Bool.or_eq_true, decide_eq_true_eq, hle, Char.reduceToNat] at h
  simp only [digitIn, digitVal, hle, Char.reduceToNat]
  rcases h with (h | h) | h
  · rw [if_pos h, Option.filter_some, if_pos (by simp; omega)]
    rfl
  · rw [if_neg (by omega), if_pos (by omega), Option.filter_some, if_pos (by simp; omega)]
    rfl
  · rw [if_neg (by omega), if_neg (by omega), if_pos (by omega), Option.filter_some,
      if_pos (by simp; omega)]
    rfl

theorem characterDigit_eq {c : Char} (h : (digitIn 16 c).isSome) :
    characterDigit U c = digitIn 16 c := by
  rw [characterDigit, if_pos (by have := digit_range h; omega)]

/-- `Integer.parseInt` reads an octet as it is. -/
theorem parseInt16_hexOctet (h : hexOctet s = some b) : parseInt16 U s = some (b.toNat : ℤ) := by
  unfold hexOctet at h
  split_ifs at h with hs
  obtain ⟨hlen, hhex⟩ := hs
  have hdigits := fun c hc => digitIn_of_isHexDigit (List.all_eq_true.1 hhex c hc)
  cases h
  have hchar : ∀ c ∈ s, ∃ d < 16, digitIn 16 c = some d ∧ characterDigit U c = some d := by
    intro c hc
    obtain ⟨d, hd, hc'⟩ := digitIn_isSome (hdigits c hc)
    exact ⟨d, hd, hc', by rw [characterDigit_eq (hdigits c hc), hc']⟩
  have hsign : readSign s = (false, s) := by
    match s, hlen with
    | [c], _ | [c, _], _ =>
      obtain ⟨-, -, hm, hp⟩ := digit_range (hdigits c (by simp))
      simp [readSign, hm, hp]
  rcases s with _ | ⟨c, _ | ⟨c', _ | ⟨c'', s⟩⟩⟩
  · simp at hlen
  · obtain ⟨d, hd, h1, h2⟩ := hchar c (by simp)
    have hlt : d % 256 = d := Nat.mod_eq_of_lt (by omega)
    simp [parseInt16, hsign, parseDigits, readDigits, h1, h2, hlt]
    omega
  · obtain ⟨d, hd, h1, h2⟩ := hchar c (by simp)
    obtain ⟨d', hd', h1', h2'⟩ := hchar c' (by simp)
    have hlt : (d * 16 + d') % 256 = d * 16 + d' := Nat.mod_eq_of_lt (by omega)
    simp [parseInt16, hsign, parseDigits, readDigits, h1, h2, h1', h2', hlt]
    omega
  · simp at hlen

theorem toNat_byteOf (x : ℤ) : (byteOf x).toNat = (x % 256).toNat := by
  rw [byteOf, UInt8.toNat_ofNat']
  omega

theorem byteOf_toNat (b : UInt8) : byteOf (b.toNat : ℤ) = b := by
  have := b.toNat_lt
  rw [byteOf, show ((b.toNat : ℤ) % 256).toNat = b.toNat by omega, UInt8.ofNat_toNat]

theorem hexOctet_ne_nil (h : hexOctet s = some b) : s ≠ [] := by
  rintro rfl
  simp [hexOctet, matchesByte] at h

theorem javaSplit_macText {t : List Char} {mac : List UInt8} (h : MacText t mac) :
    javaSplit ':' t = t.splitOn ':' ∧ (t.splitOn ':').length = 6 := by
  have hne := (List.forall₂_and_left _ _).1 (h.2.imp fun s b hb => ⟨hexOctet_ne_nil hb, hb⟩)
  exact ⟨javaSplit_eq_splitOn hne.1, by rw [h.2.length_eq, h.1]⟩

end Octets

/-! ### What the loops write -/

section Written

variable {U : UnicodeTables}

/-- The octets replace as many bytes of the array. -/
theorem putOctets_eq_ok {ss : List (List Char)} {bs : List UInt8}
    (h : List.Forall₂ (fun s b => hexOctet s = some b) ss bs) (pre mid suf : List UInt8)
    (hmid : mid.length = bs.length) :
    putOctets U (pre ++ mid ++ suf) pre.length ss = .ok (pre ++ bs ++ suf) := by
  induction h generalizing pre mid with
  | nil =>
    obtain rfl : mid = [] := List.length_eq_zero_iff.1 hmid
    rfl
  | @cons s b ss bs hs _ ih =>
    obtain ⟨x, mid, rfl⟩ := List.exists_cons_of_length_eq_add_one hmid
    have hset : (pre ++ x :: mid ++ suf).set pre.length b = pre ++ [b] ++ mid ++ suf := by simp
    have := ih (pre ++ [b]) mid (by simpa using hmid)
    rw [putOctets, parseInt16_hexOctet hs]
    simp only [byteOf_toNat]
    rw [if_pos (by simp), hset]
    simpa using this

/-- The addresses fill the array from their place on. -/
theorem putMacs_eq_ok {ts : List (List Char)} {macs : List (List UInt8)}
    (h : List.Forall₂ MacText ts macs) (i : ℕ) (pre mid suf : List UInt8)
    (hpre : pre.length = 8 + i * 6) (hmid : mid.length = 6 * macs.length) :
    putMacs U (pre ++ mid ++ suf) i ts = .ok (some (pre ++ macs.flatten ++ suf)) := by
  induction h generalizing i pre mid with
  | nil =>
    obtain rfl : mid = [] := List.length_eq_zero_iff.1 (by simpa using hmid)
    simp [putMacs]
  | @cons t mac ts macs ht _ ih =>
    obtain ⟨hsplit, h6⟩ := javaSplit_macText ht
    rw [List.length_cons] at hmid
    have htake : (mid.take 6).length = mac.length := by rw [List.length_take, ht.1]; omega
    have hput := putOctets_eq_ok (U := U) ht.2 pre (mid.take 6) (mid.drop 6 ++ suf) htake
    have hrest := ih (i + 1) (pre ++ mac) (mid.drop 6) (by simp [hpre, ht.1]; ring) (by simp; omega)
    have hsplit6 : pre ++ mid ++ suf = pre ++ mid.take 6 ++ (mid.drop 6 ++ suf) := by
      simp only [List.append_assoc, List.append_cancel_left_eq]
      rw [← List.append_assoc, List.take_append_drop]
    rw [putMacs, hsplit, if_neg (by simp [h6]), ← hpre, hsplit6, hput]
    simpa using hrest

theorem length_flatten_macs {ts : List (List Char)} {macs : List (List UInt8)}
    (h : List.Forall₂ MacText ts macs) : macs.flatten.length = 6 * macs.length := by
  induction h with
  | nil => rfl
  | cons ht _ ih => rw [List.flatten_cons, List.length_append, ht.1, ih, List.length_cons]; ring

/-- The bytes before the delay, for addresses `macs`. -/
def csiConfFront (conf : CsiConf) (chanspec : ℕ) (macs : List (List UInt8)) : List UInt8 :=
  csiConfHeader conf chanspec ++ macs.flatten ++ List.replicate (24 - 6 * macs.length) 0

theorem length_csiConfFront {conf : CsiConf} {macs : List (List UInt8)}
    (h : List.Forall₂ MacText conf.cmpSrcMacs macs) (h4 : macs.length ≤ 4) (chanspec : ℕ) :
    (csiConfFront conf chanspec macs).length = 32 := by
  simp only [csiConfFront, List.length_append, length_flatten_macs h, List.length_replicate]
  simp [csiConfHeader]
  omega

/-- **The 34 bytes of `toBase64`**, for at most four addresses as they should be. -/
theorem csiConfBytes_eq_ok {conf : CsiConf} {macs : List (List UInt8)}
    (h : List.Forall₂ MacText conf.cmpSrcMacs macs) (h4 : macs.length ≤ 4) (chanspec : ℕ) :
    csiConfBytes U conf chanspec = .ok (some
      (csiConfFront conf chanspec macs ++ [byteOf conf.delay, byteOf (conf.delay / 256)])) := by
  have hzero : List.replicate 26 (0 : UInt8) =
      List.replicate (6 * macs.length) 0 ++ (List.replicate (24 - 6 * macs.length) 0 ++ [0, 0]) := by
    rw [show [0, 0] = List.replicate 2 (0 : UInt8) from rfl, List.replicate_append_replicate,
      List.replicate_append_replicate]
    congr 1
    omega
  have hput := putMacs_eq_ok (U := U) h 0 (csiConfHeader conf chanspec)
    (List.replicate (6 * macs.length) 0) (List.replicate (24 - 6 * macs.length) 0 ++ [0, 0])
    rfl (by simp)
  have hlen := length_csiConfFront h h4 chanspec
  rw [csiConfBytes, hzero, ← List.append_assoc, hput]
  simp only [← List.append_assoc, ← csiConfFront.eq_1]
  rw [List.set_append_right _ _ (by omega), List.set_append_right _ _ (by omega), hlen]
  rfl

end Written

/-! ### Where the array is overrun -/

section Overrun

variable {U : UnicodeTables}

/-- An address that the loops get past: six parts, each an integer for `parseInt`. -/
def ParsedMac (U : UnicodeTables) (t : List Char) : Prop :=
  (javaSplit ':' t).length = 6 ∧ ∀ s ∈ javaSplit ':' t, (parseInt16 U s).isSome

/-- The addresses that run over the array: four that parse, and a fifth of six parts the first three
of which parse. -/
def OverrunMacs (U : UnicodeTables) (ts : List (List Char)) : Prop :=
  (∀ t ∈ ts.take 4, ParsedMac U t) ∧ ∃ t, ts[4]? = some t ∧ (javaSplit ':' t).length = 6 ∧
    ∀ s ∈ (javaSplit ':' t).take 3, (parseInt16 U s).isSome

/-- `putOctets` inside the array: it ends iff every part parses, and throws otherwise. -/
theorem putOctets_inside (ss : List (List Char)) (buff : List UInt8) (p : ℕ)
    (hp : p + ss.length ≤ buff.length) :
    (∃ buff', putOctets U buff p ss = .ok buff' ∧ buff'.length = buff.length ∧
      ∀ s ∈ ss, (parseInt16 U s).isSome) ∨
    putOctets U buff p ss = .error .numberFormat ∧ ¬ ∀ s ∈ ss, (parseInt16 U s).isSome := by
  induction ss generalizing buff p with
  | nil => exact .inl ⟨buff, rfl, rfl, by simp⟩
  | cons s ss ih =>
    rw [List.length_cons] at hp
    cases hs : parseInt16 U s with
    | none => exact .inr ⟨by rw [putOctets, hs], by simp [hs]⟩
    | some v =>
      have hput : putOctets U buff p (s :: ss) =
          putOctets U (buff.set p (byteOf v)) (p + 1) ss := by
        simp only [putOctets, hs]
        rw [if_pos (by omega)]
      rw [hput, List.forall_mem_cons, hs]
      rcases ih (buff.set p (byteOf v)) (p + 1) (by simp; omega) with
        ⟨buff', hok, hlen, hall⟩ | ⟨herr, hall⟩
      · exact .inl ⟨buff', hok, by simpa using hlen, rfl, hall⟩
      · exact .inr ⟨herr, fun h => hall h.2⟩

/-- The fifth address starts two bytes before the end of the array. -/
theorem putOctets_overrun {ss : List (List Char)} {buff : List UInt8} (hb : buff.length = 34)
    (h6 : ss.length = 6) :
    putOctets U buff 32 ss = .error .arrayIndexOutOfBounds ∧
      (∀ s ∈ ss.take 3, (parseInt16 U s).isSome) ∨
    putOctets U buff 32 ss = .error .numberFormat ∧
      ¬ ∀ s ∈ ss.take 3, (parseInt16 U s).isSome := by
  match ss, h6 with
  | [s0, s1, s2, _, _, _], _ =>
    simp only [List.take_succ_cons, List.take_zero, List.forall_mem_cons, List.not_mem_nil,
      false_implies, implies_true, and_true]
    cases h0 : parseInt16 U s0 <;> cases h1 : parseInt16 U s1 <;> cases h2 : parseInt16 U s2 <;>
      simp [putOctets, h0, h1, h2, hb]

theorem putMacs_overrun_iff {ts : List (List Char)} {buff : List UInt8} (hb : buff.length = 34)
    {i : ℕ} (hi : i ≤ 4) :
    putMacs U buff i ts = .error .arrayIndexOutOfBounds ↔
      (∀ t ∈ ts.take (4 - i), ParsedMac U t) ∧ ∃ t, ts[4 - i]? = some t ∧
        (javaSplit ':' t).length = 6 ∧ ∀ s ∈ (javaSplit ':' t).take 3, (parseInt16 U s).isSome := by
  induction ts generalizing buff i with
  | nil => simp [putMacs]
  | cons t ts ih =>
    rw [putMacs]
    by_cases h6 : (javaSplit ':' t).length = 6
    · rw [if_neg (not_not.2 h6)]
      rcases Nat.lt_or_eq_of_le hi with hlt | rfl
      · -- an address inside the array
        obtain ⟨k, hk⟩ : ∃ k, 4 - i = k + 1 := ⟨3 - i, by omega⟩
        have hk' : 4 - (i + 1) = k := by omega
        simp only [hk, List.take_succ_cons, List.forall_mem_cons, List.getElem?_cons_succ, ParsedMac,
          h6, true_and]
        rcases putOctets_inside (U := U) (javaSplit ':' t) buff (8 + i * 6) (by omega) with
          ⟨buff', hok, hlen, hall⟩ | ⟨herr, hall⟩
        · rw [hok]
          simp only [ih (hlen.trans hb) (show i + 1 ≤ 4 by omega), hk', ParsedMac]
          constructor
          · rintro ⟨htake, hfifth⟩
            exact ⟨⟨hall, htake⟩, hfifth⟩
          · rintro ⟨⟨-, htake⟩, hfifth⟩
            exact ⟨htake, hfifth⟩
        · rw [herr]
          constructor
          · intro h
            simp at h
          · intro h
            exact absurd h.1.1 hall
      · -- the fifth address
        simp only [Nat.sub_self, List.take_zero, List.not_mem_nil, false_implies, implies_true,
          true_and, List.getElem?_cons_zero, Option.some.injEq, exists_eq_left', h6]
        rcases putOctets_overrun (U := U) hb h6 with ⟨herr, hall⟩ | ⟨herr, hall⟩
        · rw [herr]
          exact ⟨fun _ => hall, fun _ => rfl⟩
        · rw [herr]
          constructor
          · intro h
            simp at h
          · intro h
            exact absurd h hall
    · rw [if_pos h6]
      constructor
      · intro h
        simp at h
      · rintro ⟨htake, t', ht', h6', -⟩
        rcases Nat.lt_or_eq_of_le hi with hlt | rfl
        · obtain ⟨k, hk⟩ : ∃ k, 4 - i = k + 1 := ⟨3 - i, by omega⟩
          rw [hk, List.take_succ_cons] at htake
          exact absurd (htake t (by simp)).1 h6
        · obtain rfl : t = t' := by simpa using ht'
          exact absurd h6' h6

theorem putOctets_error {ss : List (List Char)} {buff : List UInt8} {p : ℕ} {e : JavaException}
    (h : putOctets U buff p ss = .error e) : e = .numberFormat ∨ e = .arrayIndexOutOfBounds := by
  induction ss generalizing buff p with
  | nil => cases h
  | cons s ss ih =>
    rw [putOctets] at h
    split at h
    · cases h
      exact .inl rfl
    · split_ifs at h
      · exact ih h
      · cases h
        exact .inr rfl

theorem putMacs_error {ts : List (List Char)} {buff : List UInt8} {i : ℕ} {e : JavaException}
    (h : putMacs U buff i ts = .error e) : e = .numberFormat ∨ e = .arrayIndexOutOfBounds := by
  induction ts generalizing buff i with
  | nil => cases h
  | cons t ts ih =>
    rw [putMacs] at h
    split_ifs at h
    split at h
    · rename_i e' he
      cases h
      exact putOctets_error he
    · exact ih h

/-- **`toBase64` throws** iff its addresses run over the array. -/
theorem csiConfBytes_eq_error_iff {conf : CsiConf} (chanspec : ℕ) :
    (∃ e, csiConfBytes U conf chanspec = .error e) ↔ OverrunMacs U conf.cmpSrcMacs := by
  have hb : (csiConfHeader conf chanspec ++ List.replicate 26 0).length = 34 := rfl
  rw [OverrunMacs, ← putMacs_overrun_iff (i := 0) hb (by omega), csiConfBytes]
  cases hput : putMacs U (csiConfHeader conf chanspec ++ List.replicate 26 0) 0 conf.cmpSrcMacs with
  | error e =>
    rcases putMacs_error hput with rfl | rfl
    · simp
    · simp
  | ok r => cases r <;> simp

end Overrun

end LocTag
