import LocTag.Params.CsiConf

/-!
# From the CSI form to the firmware

The start path of `CsiFragment`: it makes a `CsiConf` of the form and writes the encoded parameters
to the root shell in a `nexutil` line.  `csiParamsOf` reads a block of 34 bytes as the firmware does.

`form_reaches_firmware_iff` says for which forms the line, if there is one, carries the form: those
the 34 bytes have room for, and those whose addresses run over the array, which make the start path
end without a line.
-/

namespace LocTag

open Lib

/-! ### `struct csi_params` -/

/-- The contents of `struct csi_params`. -/
structure CsiParams where
  chanspec : ℕ
  csiCollect : ℕ
  nssMask : ℕ
  coreMask : ℕ
  pktFilter : Option UInt8
  macs : List (List UInt8)
  delay : ℕ

/-- The first `n` addresses of `cmp_src_mac`. -/
def cmpSrcMac : ℕ → List UInt8 → List (List UInt8)
  | 0, _ => []
  | n + 1, b => b.take 6 :: cmpSrcMac n (b.drop 6)

/-- `struct csi_params` over a block of bytes, `n_mac_addr` addresses long. -/
def csiParamsOf (b : List UInt8) : CsiParams :=
  let m := Mem.ofList b
  { chanspec := m.le16At 0
    csiCollect := m.u8At 2
    nssMask := m.u8At 3 / 16
    coreMask := m.u8At 3 % 16
    pktFilter := if m.u8At 4 = 0 then none else some ((m 5).getD 0)
    macs := cmpSrcMac (m.le16At 6) (b.drop 8)
    delay := m.le16At 32 }

/-! ### The form and the start path -/

/-- The fields of the CSI form; the integers have been parsed. -/
structure CsiForm where
  chanspecStr : List Char
  nssMask : ℤ
  coreMask : ℤ
  delay : ℤ
  srcMacs : List Char
  firstByte : List Char
  pkgNum : ℤ

section Start

variable (U : UnicodeTables)

/-- The `CsiConf` of a form. -/
def CsiForm.conf (f : CsiForm) : CsiConf :=
  let conf := (((⟨f.chanspecStr, false, f.nssMask, f.coreMask, false, 0, [], 0⟩ : CsiConf).setDelay
    f.delay).setSrcMacFilter U f.srcMacs).setEnable true
  -- the text has been matched, so it parses
  if matchesByte f.firstByte then
    conf.setFirstPktByteFilter (byteOf ((parseInt16 U f.firstByte).getD 0))
  else conf

def nexutilPrefix : List Char := "nexutil -Iwlan0 -s500 -b -l34 -v".toList
def csiutilPrefix : List Char := "csiutil -m2 -f\"dst port 5500\" -l0 -t2 -d1 -n".toList
def csiutilSuffix : List Char := " >/dev/null 2>&1 &".toList

/-- `nexutil -Iwlan0 -s500 -b -l34 -v%s`, without the end of the line. -/
def nexutilLine (arg : List Char) : List Char := nexutilPrefix ++ arg

def csiutilLine (pkgNum : ℤ) : List Char := csiutilPrefix ++ decimal pkgNum ++ csiutilSuffix

/-- The texts the start path writes to the root shell, in order; the encoder runs twice, the first
time for the log. -/
def startCsi (st : ℕ) (f : CsiForm) : Option (ℕ × List (List Char)) :=
  match toBase64 U st (f.conf U) with
  | none => none
  | some (st, .error _) => some (st, [])
  | some (st, .ok _) =>
    match toBase64 U st (f.conf U) with
    | none => none
    | some (st, .error _) => some (st, ["nexutil -m1\n".toList])
    | some (st, .ok arg) => some (st, ["nexutil -m1\n".toList, nexutilLine (strArg arg) ++ ['\n'],
        csiutilLine f.pkgNum ++ ['\n'], "jobs -l\n".toList])

end Start

/-- The lines the shell reads. -/
def shellLines (texts : List (List Char)) : List (List Char) := texts.flatten.splitOn '\n'

/-! ### What a form means -/

section Meaning

variable (U : UnicodeTables)

/-- The addresses of a source-MAC text: none where it has no word character, else one between every
two bars. -/
def MacList (s : List Char) (macs : List (List UInt8)) : Prop :=
  if s.all fun c => !isWord U c then macs = [] else List.Forall₂ MacText (s.splitOn '|') macs

/-- The argument of the `nexutil` line is the base64 text of 34 bytes that say what the form does. -/
def FormEncodes (f : CsiForm) (arg : List Char) : Prop :=
  ∃ b, Base64.decode arg = some b ∧ b.length = 34 ∧
    ((csiParamsOf b).chanspec ≠ 0 ∧
      ∃ st, wfChspecAton 0 f.chanspecStr = some (st, (csiParamsOf b).chanspec)) ∧
    (csiParamsOf b).csiCollect = 1 ∧
    (((csiParamsOf b).nssMask : ℤ) = f.nssMask ∧ 1 ≤ f.nssMask) ∧
    (((csiParamsOf b).coreMask : ℤ) = f.coreMask ∧ 1 ≤ f.coreMask) ∧
    (MacList U f.srcMacs (csiParamsOf b).macs ∧ (csiParamsOf b).macs.length ≤ 4) ∧
    ((csiParamsOf b).delay : ℤ) = f.delay ∧
    (csiParamsOf b).pktFilter = hexOctet f.firstByte

/-- The forms that have an encoding. -/
def ValidForm (f : CsiForm) : Prop :=
  (∃ c, c ≠ 0 ∧ wfChspecAton 0 f.chanspecStr = some (0, c)) ∧
  (1 ≤ f.nssMask ∧ f.nssMask ≤ 15) ∧ (1 ≤ f.coreMask ∧ f.coreMask ≤ 15) ∧
  (∃ macs, MacList U f.srcMacs macs ∧ macs.length ≤ 4) ∧ (0 ≤ f.delay ∧ f.delay ≤ 65535)

end Meaning

/-! ### Decoding what was encoded -/

section Decode

theorem cmpSrcMac_flatten {macs : List (List UInt8)} (h : ∀ mac ∈ macs, mac.length = 6)
    (suf : List UInt8) : cmpSrcMac macs.length (macs.flatten ++ suf) = macs := by
  induction macs with
  | nil => rfl
  | cons mac macs ih =>
    obtain ⟨h6, hs⟩ := List.forall_mem_cons.1 h
    rw [List.length_cons, List.flatten_cons, List.append_assoc, cmpSrcMac, ← h6, List.take_left,
      List.drop_left, ih hs]

/-- **The block of `toBase64` says what the settings do**, cut at the widths of its fields. -/
theorem csiParamsOf_csiConfFront {conf : CsiConf} {macs : List (List UInt8)} {chanspec : ℕ}
    (h : List.Forall₂ MacText conf.cmpSrcMacs macs) (h4 : macs.length ≤ 4) (hc : chanspec < 65536) :
    csiParamsOf (csiConfFront conf chanspec macs ++ [byteOf conf.delay, byteOf (conf.delay / 256)]) =
      { chanspec := chanspec
        csiCollect := if conf.csiCollect then 1 else 0
        nssMask := (conf.nssMask % 16).toNat
        coreMask := (conf.coreMask % 16).toNat
        pktFilter := if conf.usePktFilter then some conf.firstPktByte else none
        macs := macs
        delay := (conf.delay % 65536).toNat } := by
  have hlen := length_csiConfFront h h4 chanspec
  have h6 : ∀ mac ∈ macs, mac.length = 6 := by
    have := (List.forall₂_and_left (p := fun mac : List UInt8 => mac.length = 6) macs
      conf.cmpSrcMacs).1 (h.flip.imp fun _ _ ht => ⟨ht.1, ht⟩)
    exact this.1
  have hn : conf.cmpSrcMacs.length = macs.length := h.length_eq
  set front := csiConfFront conf chanspec macs with hfront
  have hmem : ∀ i < 8, Mem.ofList (front ++ [byteOf conf.delay, byteOf (conf.delay / 256)]) i =
      (csiConfHeader conf chanspec)[i]? := by
    intro i hi
    rw [Mem.ofList, List.getElem?_append_left (by omega), hfront, csiConfFront, List.append_assoc,
      List.getElem?_append_left (by simpa [csiConfHeader] using hi)]
  have hdelay : ∀ i, Mem.ofList (front ++ [byteOf conf.delay, byteOf (conf.delay / 256)]) (32 + i) =
      [byteOf conf.delay, byteOf (conf.delay / 256)][i]? := by
    intro i
    rw [Mem.ofList, List.getElem?_append_right (by omega)]
    congr 1
    omega
  have hdrop : (front ++ [byteOf conf.delay, byteOf (conf.delay / 256)]).drop 8 =
      macs.flatten ++ (List.replicate (24 - 6 * macs.length) 0 ++
        [byteOf conf.delay, byteOf (conf.delay / 256)]) := by
    rw [hfront, csiConfFront]
    simp [csiConfHeader]
  have hmacs : (byteOf conf.cmpSrcMacs.length).toNat = macs.length := by
    rw [toNat_byteOf, hn]
    omega
  have h0 := hdelay 0
  have h1 := hdelay 1
  simp only [Nat.add_zero] at h0
  simp only [csiParamsOf, Mem.le16At, Mem.u8At, hmem _ (show 0 < 8 by omega),
    hmem _ (show 0 + 1 < 8 by omega), hmem _ (show 2 < 8 by omega), hmem _ (show 3 < 8 by omega),
    hmem _ (show 4 < 8 by omega), hmem _ (show 5 < 8 by omega), hmem _ (show 6 < 8 by omega),
    hmem _ (show 6 + 1 < 8 by omega), h0, h1, hdrop]
  simp only [csiConfHeader, List.getElem?_cons_zero, List.getElem?_cons_succ, Option.getD_some,
    toNat_byteOf, Nat.zero_add, CsiParams.mk.injEq]
  refine ⟨by omega, by split <;> rfl, by omega, by omega, by split <;> rfl, ?_, by omega⟩
  rw [show ((conf.cmpSrcMacs.length : ℤ) % 256).toNat + 256 * (0 : UInt8).toNat = macs.length by
    rw [hn]; show _ + 256 * 0 = _; omega]
  exact cmpSrcMac_flatten h6 _

end Decode

/-! ### The lines of a session -/

section Lines

variable {U : UnicodeTables} {f : CsiForm}

theorem newline_not_mem_decimal (x : ℤ) : '\n' ∉ decimal x :=
  not_mem_decimal rfl (by simp) x

theorem shellLines_session (arg : List Char) : shellLines ["nexutil -m1\n".toList,
    nexutilLine arg ++ ['\n'], csiutilLine f.pkgNum ++ ['\n'], "jobs -l\n".toList] =
    "nexutil -m1".toList :: ((nexutilLine arg).splitOn '\n' ++
      [csiutilLine f.pkgNum, "jobs -l".toList, []]) := by
  have hcmd : '\n' ∉ csiutilLine f.pkgNum := by
    have hp : '\n' ∉ csiutilPrefix := by decide +kernel
    have hs : '\n' ∉ csiutilSuffix := by decide +kernel
    simp [csiutilLine, newline_not_mem_decimal, hp, hs]
  have htexts : ["nexutil -m1\n".toList, nexutilLine arg ++ ['\n'],
      csiutilLine f.pkgNum ++ ['\n'], "jobs -l\n".toList].flatten =
      "nexutil -m1".toList ++ '\n' :: (nexutilLine arg ++ '\n' ::
        (csiutilLine f.pkgNum ++ '\n' :: ("jobs -l".toList ++ '\n' :: []))) := by
    have h1 : "nexutil -m1\n".toList = "nexutil -m1".toList ++ ['\n'] := rfl
    have h2 : "jobs -l\n".toList = "jobs -l".toList ++ ['\n'] := rfl
    simp only [h1, h2, List.flatten_cons, List.flatten_nil, List.append_assoc, List.singleton_append,
      List.append_nil]
  rw [shellLines, htexts, List.splitOn_append_cons_self_of_not_mem (by simp),
    List.splitOn_append_cons_self, List.splitOn_append_cons_self_of_not_mem hcmd,
    List.splitOn_append_cons_self_of_not_mem (by simp), List.splitOn_nil]

theorem newline_not_mem_nexutilLine {arg : List Char} (h : '\n' ∉ arg) :
    '\n' ∉ nexutilLine arg := by
  have hp : '\n' ∉ nexutilPrefix := by decide +kernel
  simp [nexutilLine, hp, h]

/-- The line an encoded block is sent in. -/
theorem splitOn_nexutilLine_encode (b : List UInt8) :
    (nexutilLine (encodeToString b)).splitOn '\n' = [nexutilLine (Base64.encode b), []] := by
  have hline : nexutilLine (encodeToString b) = nexutilLine (Base64.encode b) ++ '\n' :: [] := by
    simp [nexutilLine, encodeToString]
  rw [hline, List.splitOn_append_cons_self_of_not_mem
    (newline_not_mem_nexutilLine (Base64.newline_not_mem_encode b)), List.splitOn_nil]

theorem nexutilLine_inj {a b : List Char} : nexutilLine a = nexutilLine b ↔ a = b :=
  List.append_right_inj _

/-- The line with the parameters is the only one of its kind. -/
theorem nexutilLine_mem_session {arg : List Char} (b : List UInt8)
    (h : nexutilLine arg ∈ shellLines ["nexutil -m1\n".toList,
      nexutilLine (encodeToString b) ++ ['\n'], csiutilLine f.pkgNum ++ ['\n'],
      "jobs -l\n".toList]) : arg = Base64.encode b := by
  rw [shellLines_session, splitOn_nexutilLine_encode] at h
  simp only [List.cons_append, List.nil_append, List.mem_cons, List.not_mem_nil, or_false,
    nexutilLine_inj] at h
  have hprefix : nexutilPrefix <+: nexutilLine arg := List.prefix_append _ _
  rcases h with h | h | h | h | h | h
  · rw [h] at hprefix
    exact absurd hprefix (by decide +kernel)
  · exact h
  · rw [h] at hprefix
    exact absurd hprefix (by decide +kernel)
  · have hn : nexutilPrefix.head? = some 'n' := rfl
    have hc : csiutilPrefix.head? = some 'c' := rfl
    have := congrArg List.head? h
    rw [nexutilLine, csiutilLine, List.append_assoc, List.head?_append, List.head?_append, hn,
      hc] at this
    simp at this
  · rw [h] at hprefix
    exact absurd hprefix (by decide +kernel)
  · rw [h] at hprefix
    exact absurd hprefix (by decide +kernel)

end Lines

/-! ### The forms that reach the firmware as they are -/

section Forms

variable {U : UnicodeTables} {f : CsiForm}

theorem conf_fields : (f.conf U).chanspecStr = f.chanspecStr ∧ (f.conf U).csiCollect = true ∧
    (f.conf U).nssMask = f.nssMask ∧ (f.conf U).coreMask = f.coreMask ∧
    (f.conf U).delay = f.delay := by
  unfold CsiForm.conf
  split <;> exact ⟨rfl, rfl, rfl, rfl, rfl⟩

theorem conf_filter : (if (f.conf U).usePktFilter then some (f.conf U).firstPktByte else none) =
    hexOctet f.firstByte := by
  by_cases hm : matchesByte f.firstByte
  · have hoct : hexOctet f.firstByte = some (UInt8.ofNat (readDigits 16 0 f.firstByte).1) :=
      if_pos hm
    simp only [CsiForm.conf, hm, if_true, CsiConf.setFirstPktByteFilter, parseInt16_hexOctet hoct,
      Option.getD_some, byteOf_toNat, hoct]
  · simp only [CsiForm.conf, hm, if_false, hexOctet]
    rfl

theorem conf_cmpSrcMacs : (f.conf U).cmpSrcMacs =
    if f.srcMacs.all fun c => !isWord U c then [] else javaSplit '|' f.srcMacs := by
  unfold CsiForm.conf
  split <;> rfl

theorem macText_ne_nil {t : List Char} {mac : List UInt8} (h : MacText t mac) : t ≠ [] := by
  rintro rfl
  have := (javaSplit_macText h).2
  simp at this

theorem macList_conf {macs : List (List UInt8)} (h : MacList U f.srcMacs macs) :
    List.Forall₂ MacText (f.conf U).cmpSrcMacs macs := by
  unfold MacList at h
  rw [conf_cmpSrcMacs]
  split_ifs at h ⊢ with hw
  · rw [h]
    exact .nil
  · have hne := (List.forall₂_and_left _ _).1 (h.imp fun t mac ht => ⟨macText_ne_nil ht, ht⟩)
    rwa [javaSplit_eq_splitOn hne.1]

/-- The block of a valid form says what the form does. -/
theorem formEncodes_of_valid {c : ℕ} {macs : List (List UInt8)} (hc : c ≠ 0)
    (hchan : wfChspecAton 0 f.chanspecStr = some (0, c)) (hnss : 1 ≤ f.nssMask ∧ f.nssMask ≤ 15)
    (hcore : 1 ≤ f.coreMask ∧ f.coreMask ≤ 15) (hmacs : MacList U f.srcMacs macs)
    (h4 : macs.length ≤ 4) (hdelay : 0 ≤ f.delay ∧ f.delay ≤ 65535) :
    FormEncodes U f (Base64.encode (csiConfFront (f.conf U) c macs ++
      [byteOf (f.conf U).delay, byteOf ((f.conf U).delay / 256)])) := by
  have hlist := macList_conf hmacs
  obtain ⟨-, hcollect, hn, hk, hd⟩ := conf_fields (U := U) (f := f)
  refine ⟨_, Base64.decode_encode _, ?_, ?_⟩
  · rw [List.length_append, length_csiConfFront hlist h4]
    rfl
  · rw [csiParamsOf_csiConfFront hlist h4 (wfChspecAton_lt hchan)]
    simp only [hcollect, if_true, hn, hk, hd, conf_filter, and_true, true_and]
    exact ⟨⟨hc, 0, hchan⟩, ⟨by omega, hnss.1⟩, ⟨by omega, hcore.1⟩, ⟨hmacs, h4⟩, by omega⟩

/-- What is encoded as the form says is a valid form. -/
theorem valid_of_formEncodes {arg : List Char} (h : FormEncodes U f arg) : ValidForm U f := by
  obtain ⟨b, -, -, ⟨hc, st, hchan⟩, -, ⟨hn, hn1⟩, ⟨hk, hk1⟩, ⟨hmacs, h4⟩, hd, -⟩ := h
  have h3 : (csiParamsOf b).nssMask ≤ 15 ∧ (csiParamsOf b).coreMask ≤ 15 := by
    have := Mem.u8At_lt (m := Mem.ofList b) 3
    simp only [csiParamsOf]
    omega
  have h32 : (csiParamsOf b).delay < 65536 := Mem.le16At_lt 32
  obtain ⟨rfl, -⟩ := wfChspecAton_ne_zero hchan hc
  exact ⟨⟨_, hc, hchan⟩, ⟨hn1, by omega⟩, ⟨hk1, by omega⟩, ⟨_, hmacs, h4⟩, by omega, by omega⟩

/-- "null" is no block of 34 bytes. -/
theorem not_formEncodes_null : ¬ FormEncodes U f "null".toList := by
  rintro ⟨b, hb, hlen, -⟩
  have : Base64.decode "null".toList = some [0x9e, 0xe9, 0x65] := rfl
  rw [this] at hb
  cases hb
  simp at hlen

/-- The start path of a valid form. -/
theorem startCsi_valid {c st : ℕ} {macs : List (List UInt8)} (hc : c ≠ 0)
    (hchan : wfChspecAton 0 f.chanspecStr = some (0, c)) (hmacs : MacList U f.srcMacs macs)
    (h4 : macs.length ≤ 4) : startCsi U st f = some (st, ["nexutil -m1\n".toList,
      nexutilLine (encodeToString (csiConfFront (f.conf U) c macs ++
        [byteOf (f.conf U).delay, byteOf ((f.conf U).delay / 256)])) ++ ['\n'],
      csiutilLine f.pkgNum ++ ['\n'], "jobs -l\n".toList]) := by
  have hst := (wfChspecAton_ne_zero hchan hc).2 st
  have hto : toBase64 U st (f.conf U) = some (st, .ok (some (encodeToString
      (csiConfFront (f.conf U) c macs ++
        [byteOf (f.conf U).delay, byteOf ((f.conf U).delay / 256)])))) := by
    simp only [toBase64, conf_fields.1, hst, csiConfBytes_eq_ok (macList_conf hmacs) h4]
    rfl
  simp only [startCsi, hto, strArg, Option.getD_some]

/-- The start path of a form whose addresses run over the array writes nothing. -/
theorem startCsi_overrun {st : ℕ} (hchan : (wfChspecAton st f.chanspecStr).isSome)
    (h : OverrunMacs U (f.conf U).cmpSrcMacs) : ∃ st', startCsi U st f = some (st', []) := by
  obtain ⟨⟨st', c⟩, hst⟩ := Option.isSome_iff_exists.1 hchan
  obtain ⟨e, he⟩ := (csiConfBytes_eq_error_iff c).2 h
  refine ⟨st', ?_⟩
  simp only [startCsi, toBase64, conf_fields.1, hst, he]
  rfl

/-- The start path of any other form writes the line, with a block or with `null`. -/
theorem startCsi_line {st : ℕ} {r : ℕ × List (List Char)} (h : startCsi U st f = some r)
    (hover : ¬ OverrunMacs U (f.conf U).cmpSrcMacs) :
    nexutilLine "null".toList ∈ shellLines r.2 ∨
      ∃ b, nexutilLine (Base64.encode b) ∈ shellLines r.2 := by
  have hok : ∀ c, ∃ o, csiConfBytes U (f.conf U) c = .ok o := by
    intro c
    cases hb : csiConfBytes U (f.conf U) c with
    | error e => exact absurd ((csiConfBytes_eq_error_iff c).1 ⟨e, hb⟩) hover
    | ok o => exact ⟨o, rfl⟩
  simp only [startCsi, toBase64] at h
  cases h1 : wfChspecAton st (f.conf U).chanspecStr with
  | none => simp [h1] at h
  | some r1 =>
    obtain ⟨st1, c1⟩ := r1
    obtain ⟨o1, ho1⟩ := hok c1
    simp only [h1, ho1, Except.map] at h
    cases h2 : wfChspecAton st1 (f.conf U).chanspecStr with
    | none => simp [h2] at h
    | some r2 =>
      obtain ⟨st2, c2⟩ := r2
      obtain ⟨o2, ho2⟩ := hok c2
      simp only [h2, ho2, Option.some.injEq] at h
      subst h
      cases o2 with
      | none =>
        refine .inl ?_
        have hnull : '\n' ∉ nexutilLine "null".toList :=
          newline_not_mem_nexutilLine (by simp)
        rw [shellLines_session]
        refine List.mem_cons_of_mem _ (List.mem_append_left _ ?_)
        simp only [Option.map_none, strArg, Option.getD_none]
        rw [List.splitOn_eq_singleton hnull]
        exact List.mem_singleton_self _
      | some b =>
        refine .inr ⟨b, ?_⟩
        rw [shellLines_session]
        refine List.mem_cons_of_mem _ (List.mem_append_left _ ?_)
        simp only [Option.map_some, strArg, Option.getD_some]
        rw [splitOn_nexutilLine_encode]
        exact List.mem_cons_self

end Forms

end LocTag
