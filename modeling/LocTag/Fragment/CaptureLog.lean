import LocTag.Fragment.Receive

/-!
# The log of a capture

`CaptureFragment` writes a line for every frame, the fields of its `Dot11Rt` with commas between
them.  Here the log is read back: lines end at newlines, the first nine commas of a line separate its
fields, and the status says which of them are set.

`log_read_back_iff` is exact: a log gives its records back iff no SSID in it has a newline.  The
commas of an SSID do no harm, since it is the last field.
-/

namespace LocTag

open Lib Lib.Fetch

/-! ### Writing -/

section Write

variable (newStringUTF : List UInt8 → List Char)

/-- A record as Java code sees it. -/
structure LogRecord where
  status : ℤ
  txMac : Option (List Char)
  rxMac : Option (List Char)
  rate : ℚ
  cFreq : ℤ
  rssi : ℤ
  noise : ℤ
  type : ℤ
  subtype : ℤ
  SSID : Option (List Char)
  deriving DecidableEq

/-- The fields of the Java object. -/
def Dot11Rt.record (obj : Dot11Rt) : LogRecord :=
  { status := obj.status, txMac := obj.txMac, rxMac := obj.rxMac, rate := obj.rate,
    cFreq := obj.cFreq, rssi := obj.rssi, noise := obj.noise, type := obj.type,
    subtype := obj.subtype, SSID := obj.SSID.map newStringUTF }

/-- The text of a session: `writeText(obj.toString() + '\n')` for each object. -/
def logText (objs : List Dot11Rt) : List Char :=
  terminated '\n' (objs.map (Dot11Rt.toString newStringUTF))

/-- What the loop makes of a datagram. -/
def Produces (d : List UInt8) (obj : Dot11Rt) : Prop :=
  ∃ printed, run (captureBuffer d).mem (buffToDot11Rt 0 (getLength 1024 d)) = some (obj, printed) ∧
    ∀ s ∈ printed, s.length + 1 ≤ 64

/-- An object that `buffToDot11Rt` makes of a received frame. -/
def Produced (obj : Dot11Rt) : Prop := ∃ d, Produces d obj

/-- The text written after the datagrams `ds` is the log of what was made of them. -/
def Logged (ds : List (List UInt8)) (st : CaptureState) : Prop :=
  ∃ objs, List.Forall₂ Produces ds objs ∧ st.text = logText newStringUTF objs

variable {newStringUTF}

theorem logged_step {ds : List (List UInt8)} {st st' : CaptureState} {d : List UInt8}
    (h : Logged newStringUTF ds st) (hstep : captureBody newStringUTF st d = .ok st') :
    Logged newStringUTF (ds ++ [d]) st' := by
  obtain ⟨objs, hobjs, htext⟩ := h
  unfold captureBody at hstep
  split at hstep
  · cases hstep
  · rename_i obj printed hrun
    split at hstep
    · rename_i hfit
      cases hstep
      refine ⟨objs ++ [obj], List.rel_append hobjs (.cons ⟨printed, hrun, hfit⟩ .nil), ?_⟩
      simp [htext, logText, terminated]
    · cases hstep

/-- **The loop writes the log of its datagrams.** -/
theorem logged_run {ds : List (List UInt8)} {st : CaptureState}
    (h : ds.foldlM (captureBody newStringUTF) {} = .ok st) : Logged newStringUTF ds st := by
  have h0 : Logged newStringUTF [] {} := ⟨[], .nil, rfl⟩
  exact foldlM_invariant (fun _ _ _ _ hI hs => logged_step hI hs) h0 h

end Write

/-! ### Reading -/

/-- The record of a line. -/
def readRecord (line : List Char) : Option LogRecord :=
  match splitFirst ',' 9 line with
  | [status, txMac, rxMac, rate, cFreq, rssi, noise, type, subtype, SSID] =>
    -- an object of status 1 has no texts, and prints `null` for them
    let text (s : List Char) : Option (List Char) := if readInt status = 0 then some s else none
    some { status := readInt status, txMac := text txMac, rxMac := text rxMac,
           rate := readFixed1 rate, cFreq := readInt cFreq, rssi := readInt rssi,
           noise := readInt noise, type := readInt type, subtype := readInt subtype,
           SSID := text SSID }
  | _ => none

section Read

variable {newStringUTF : List UInt8 → List Char} {obj : Dot11Rt}

/-- The nine fields in front of the SSID. -/
def Dot11Rt.front (obj : Dot11Rt) : List (List Char) :=
  [decimal obj.status, strArg obj.txMac, strArg obj.rxMac, fixed1 obj.rate, decimal obj.cFreq,
    decimal obj.rssi, decimal obj.noise, decimal obj.type, decimal obj.subtype]

theorem toString_eq : obj.toString newStringUTF =
    [','].intercalate (obj.front ++ [strArg (obj.SSID.map newStringUTF)]) := rfl

/-- An object the decoder makes has status 1 and its defaults, or status 0 and addresses, a
half-integer rate and an SSID. -/
theorem Produced.cases (h : Produced obj) : obj = { status := 1 } ∨
    obj.status = 0 ∧ (∃ a, obj.txMac = some (macStr a)) ∧ (∃ a, obj.rxMac = some (macStr a)) ∧
      (∃ n : ℕ, obj.rate = (n : ℚ) / 2) ∧ ∃ s, obj.SSID = some s := by
  obtain ⟨d, printed, hrun, -⟩ := h
  have hobj := congrArg Prod.fst (run_eq_some_iff.1 hrun).2
  simp only at hobj
  by_cases hacc : Accepted (captureBuffer d).mem 0 (getLength 1024 d)
  · right
    rw [← hobj, value_buffToDot11Rt hacc]
    exact ⟨rfl, ⟨_, rfl⟩, ⟨_, rfl⟩, ⟨_, rfl⟩, ⟨_, rfl⟩⟩
  · left
    rw [← hobj, value_buffToDot11Rt_of_not hacc]

theorem Produced.not_mem_front (h : Produced obj) {c : Char} (hc : Delimiter c)
    (hnull : c ∉ "null".toList) : ∀ f ∈ obj.front, c ∉ f := by
  have hint : ∀ x, c ∉ decimal x := not_mem_decimal hc.1 hc.2.1
  have hmac : ∀ s : Option (List Char), s = none ∨ (∃ a, s = some (macStr a)) → c ∉ strArg s := by
    rintro s (rfl | ⟨a, rfl⟩)
    · exact hnull
    · exact hc.not_mem_macStr a
  have htx : obj.txMac = none ∨ ∃ a, obj.txMac = some (macStr a) := by
    rcases h.cases with rfl | h0
    · exact .inl rfl
    · exact .inr h0.2.1
  have hrx : obj.rxMac = none ∨ ∃ a, obj.rxMac = some (macStr a) := by
    rcases h.cases with rfl | h0
    · exact .inl rfl
    · exact .inr h0.2.2.1
  simp [Dot11Rt.front, hint, hmac _ htx, hmac _ hrx, hc.not_mem_fixed1]

/-- **A line is read back**, whatever its SSID. -/
theorem Produced.readRecord_toString (h : Produced obj) :
    readRecord (obj.toString newStringUTF) = some (obj.record newStringUTF) := by
  have hcomma : ∀ f ∈ obj.front, ',' ∉ f :=
    h.not_mem_front ⟨rfl, by simp, by simp, by simp⟩ (by simp)
  have hsplit := splitFirst_intercalate (strArg (obj.SSID.map newStringUTF)) hcomma
  rw [← toString_eq] at hsplit
  have hnine : obj.front.length = 9 := rfl
  rw [hnine] at hsplit
  have hrate : readFixed1 (fixed1 obj.rate) = obj.rate := by
    rcases h.cases with rfl | ⟨-, -, -, ⟨n, hn⟩, -⟩
    · simpa using readFixed1_fixed1 0
    · rw [hn, readFixed1_fixed1]
  simp only [readRecord, hsplit, Dot11Rt.front, List.cons_append, List.nil_append, readInt_decimal,
    hrate, Dot11Rt.record]
  rcases h.cases with rfl | ⟨h0, ⟨a, ha⟩, ⟨b, hb⟩, -, ⟨s, hs⟩⟩
  · simp
  · simp [h0, ha, hb, hs, strArg]

theorem Produced.newline_mem_iff (h : Produced obj) :
    '\n' ∈ obj.toString newStringUTF ↔ ∃ s ∈ obj.SSID, '\n' ∈ newStringUTF s := by
  have hfront : ∀ f ∈ obj.front, '\n' ∉ f :=
    h.not_mem_front ⟨rfl, by simp, by simp, by simp⟩ (by simp)
  rw [toString_eq, mem_intercalate (by simp)]
  constructor
  · rintro ⟨f, hf, hc⟩
    rcases List.mem_append.1 hf with hf | hf
    · exact absurd hc (hfront f hf)
    · obtain rfl := List.mem_singleton.1 hf
      cases hs : obj.SSID with
      | none => simp [hs, strArg] at hc
      | some s => exact ⟨s, rfl, by simpa [hs, strArg] using hc⟩
  · rintro ⟨s, hs, hc⟩
    have hs : obj.SSID = some s := hs
    exact ⟨_, List.mem_append_right _ (List.mem_singleton_self _), by simpa [hs, strArg] using hc⟩

end Read

/-- The log can be read back: it splits at newlines into one line a record and the empty text behind
the last, and each line gives its record. -/
def ReadsBack (newStringUTF : List UInt8 → List Char) (objs : List Dot11Rt) : Prop :=
  (logText newStringUTF objs).splitOn '\n' = objs.map (Dot11Rt.toString newStringUTF) ++ [[]] ∧
    ∀ obj ∈ objs, readRecord (obj.toString newStringUTF) = some (obj.record newStringUTF)

/-- **A log can be read back** iff none of its SSIDs has a newline. -/
theorem log_read_back_iff (newStringUTF : List UInt8 → List Char) {objs : List Dot11Rt}
    (h : ∀ obj ∈ objs, Produced obj) :
    ReadsBack newStringUTF objs ↔ ∀ obj ∈ objs, ∀ s ∈ obj.SSID, '\n' ∉ newStringUTF s := by
  have hnewline : (∀ obj ∈ objs, '\n' ∉ obj.toString newStringUTF) ↔
      ∀ obj ∈ objs, ∀ s ∈ obj.SSID, '\n' ∉ newStringUTF s := by
    apply forall₂_congr
    intro obj hobj
    rw [(h obj hobj).newline_mem_iff]
    simp
  rw [ReadsBack, logText, splitOn_terminated_iff, List.forall_mem_map, hnewline]
  exact and_iff_left fun obj hobj => (h obj hobj).readRecord_toString

/-- `NewStringUTF` of ASCII bytes. -/
def asciiText (s : List UInt8) : List Char := s.map fun b => Char.ofNat b.toNat

/-- The object made of a beacon with the SSID `ssid`. -/
def beaconObj (ssid : List UInt8) : Dot11Rt :=
  (value (captureBuffer (beaconFrame ssid)).mem
    (buffToDot11Rt 0 (getLength 1024 (beaconFrame ssid)))).1

theorem produced_beaconObj {ssid : List UInt8} {k : ℕ} (hk : k ≤ 63)
    (hrun : (run (captureBuffer (beaconFrame ssid)).mem
      (buffToDot11Rt 0 (getLength 1024 (beaconFrame ssid)))).map
        (fun r => r.2.map List.length) = some [17, 17, k]) : Produced (beaconObj ssid) := by
  obtain ⟨⟨obj, printed⟩, hobj, hlens⟩ := Option.map_eq_some_iff.1 hrun
  have hval : beaconObj ssid = obj := congrArg Prod.fst (run_eq_some_iff.1 hobj).2
  rw [hval]
  refine ⟨beaconFrame ssid, printed, hobj, ?_⟩
  intro s hs
  have hlen : s.length ∈ printed.map List.length := List.mem_map_of_mem hs
  rw [hlens] at hlen
  simp only [List.mem_cons, List.not_mem_nil, or_false] at hlen
  omega

theorem produced_cut : Produced { status := 1 } := ⟨[], [], rfl, by simp⟩

/-- A frame that was cut, and a beacon with commas in its SSID. -/
theorem log_read_back_comma : ReadsBack asciiText [{ status := 1 }, beaconObj [0x2c, 0x2c]] := by
  have hssid : (beaconObj [0x2c, 0x2c]).SSID = some [0x2c, 0x2c] := rfl
  refine (log_read_back_iff asciiText ?_).2 ?_
  · rw [List.forall_mem_cons, List.forall_mem_singleton]
    exact ⟨produced_cut, produced_beaconObj (k := 2) (by omega) rfl⟩
  · rw [List.forall_mem_cons, List.forall_mem_singleton, hssid]
    simp [asciiText]

/-- An SSID with the record of a cut frame in it, behind a newline. -/
def imitation : List UInt8 := asciiBytes "a\n1,null,null,0.0,0,0,0,0,0,null".toList

theorem logText_imitation :
    logText asciiText [beaconObj imitation] =
      logText asciiText [beaconObj [0x61], { status := 1 }] := by
  decide +kernel

/-- **One record imitates two.** -/
theorem log_imitated :
    ¬ ∀ (newStringUTF : List UInt8 → List Char) (objs : List Dot11Rt),
      (∀ obj ∈ objs, Produced obj) → ReadsBack newStringUTF objs := by
  intro hall
  have hone := (hall asciiText [beaconObj imitation] ?_).1
  have htwo := (hall asciiText [beaconObj [0x61], { status := 1 }] ?_).1
  · rw [logText_imitation, htwo] at hone
    have := congrArg List.length hone
    simp at this
  · rw [List.forall_mem_cons, List.forall_mem_singleton]
    exact ⟨produced_beaconObj (k := 1) (by omega) rfl, produced_cut⟩
  · rw [List.forall_mem_singleton]
    exact produced_beaconObj (k := 32) (by omega) (by decide +kernel)

end LocTag
