import LocTag.Java
import LocTag.Lib.Runs
import LocTag.Inject.Frame

/-!
# The frame to inject

`InjectMacConf.java`: the name of a frame file, and what the app displays of the header in it.

`loadFile` assigns the name first and the texts one by one after it, with array accesses in between;
`loadFile_whole_iff` says exactly when that ends with a name and texts that belong together.
-/

namespace LocTag

open Lib

/-! ### `Dot11Rt.java` -/

def frameTypes : List String := ["mgt", "ctl", "data", "ext"]

def frameSubtypes : List (List String) :=
  [["Association Request", "Association Response", "Reassociation Request",
      "Reassociation Response", "Probe Request", "Probe Response", "Timing Advertisement",
      "Reserved", "Beacon", "ATIM", "Disassociation", "Authentication", "Deauthentication",
      "Action", "Action No Ack", "Reserved"],
    ["Reserved", "Reserved", "Reserved", "Reserved", "Beamforming Report Poll",
      "VHT NDP Announcement", "Control Frame Extension", "Control Wrapper",
      "Block Ack Request (BlockAckReq)", "Block Ack (BlockAck)", "PS-Poll", "RTS", "CTS", "Ack",
      "CF-End", "CF-End +CF-Ack"],
    ["Data", "Data+CF-Ack", "Data+CF-Poll", "Data+CF-Ack +CF-Poll", "Null(no data)",
      "CF-Ack(no data)", "CF-Poll(no data)", "CF-Ack+CF-Poll(no data)", "QoS Data",
      "QoS Data+CF-Ack", "QoS Data+CF-Poll", "QoS Data+CF-Ack +CF-Poll", "QoS Null(no data)",
      "Reserved", "QoS CF-Poll(no data)", "QoS CF-Ack+CF-Poll (no data)"],
    ["DMG Beacon"]]

/-- `String.format("%s/%s", frame_type[type], frame_subtype[type][subtype])`, `none` where an index is
out of bounds. -/
def frameTypeText (type subtype : ℕ) : Option (List Char) := do
  let typeName ← frameTypes[type]?
  let row ← frameSubtypes[type]?
  let subtypeName ← row[subtype]?
  pure (typeName.toList ++ '/' :: subtypeName.toList)

/-! ### `InjectMacConf.java` -/

/-- The fields, less the directory the names are in. -/
@[ext] structure InjectMacConf where
  frameType : List Char := []
  addr1 : List Char := []
  addr2 : List Char := []
  addr3 : List Char := []
  info : List Char := []
  filename : List Char := "mgt-beacon-example.bin".toList
  deriving DecidableEq

/-- `file.length()` -/
def FrameFile.length : FrameFile → ℕ
  | .missing => 0
  | .unreadable length => length
  | .readable content => content.length

/-- `buf` after `readFully`, where there is memory for an array of `heap` bytes. -/
def readBuf (heap : ℕ) (file : FrameFile) : Except JavaException (List UInt8) :=
  if jint file.length < 0 then .error .negativeArraySize
  else if heap < jint file.length then .error .outOfMemory
  else match file with
    | .readable content => .ok (content.take (jint content.length).toNat)
    | _ => .error .io

/-- `buf[i]` -/
def byteAt (buf : List UInt8) (i : ℕ) : Except JavaException UInt8 :=
  match buf[i]? with
  | some b => .ok b
  | none => .error .arrayIndexOutOfBounds

/-- `buf[i]` and the bytes after it, `n` in all. -/
def bytesAt (buf : List UInt8) (i : ℕ) : ℕ → Except JavaException (List UInt8)
  | 0 => .ok []
  | n + 1 => do
    let b ← byteAt buf i
    let bs ← bytesAt buf (i + 1) n
    pure (b :: bs)

/-- `String.format("%02x:%02x:%02x:%02x:%02x:%02x", buf[i], ..)` -/
def addrText (buf : List UInt8) (i : ℕ) : Except JavaException (List Char) := do
  pure (macStr (← bytesAt buf i 6))

/-- The type and the subtype, from the sign-extended byte. -/
def typeBits (b : UInt8) : ℕ := (toI8 b / 4 % 4).toNat
def subtypeBits (b : UInt8) : ℕ := (toI8 b / 16 % 16).toNat

namespace InjectMacConf

variable (imc : InjectMacConf) (buf : List UInt8)

/-! The assignments of `loadFile`. -/

def assignFrameType : Except JavaException InjectMacConf := do
  let b ← byteAt buf 0
  match frameTypeText (typeBits b) (subtypeBits b) with
  | some frameType => pure { imc with frameType }
  | none => throw .arrayIndexOutOfBounds

def assignAddr1 : Except JavaException InjectMacConf := do
  pure { imc with addr1 := ← addrText buf 4 }

def assignAddr2 : Except JavaException InjectMacConf := do
  pure { imc with addr2 := ← addrText buf 10 }

def assignAddr3 : Except JavaException InjectMacConf := do
  pure { imc with addr3 := ← addrText buf 16 }

def assignInfo : Except JavaException InjectMacConf := do
  pure { imc with info := "flags ".toList ++ hex2 (← byteAt buf 1) }

def assignments : List (InjectMacConf → Except JavaException InjectMacConf) :=
  [(assignFrameType · buf), (assignAddr1 · buf), (assignAddr2 · buf), (assignAddr3 · buf),
    (assignInfo · buf)]

/-- `catch (IOException e)` -/
def catchIO : InjectMacConf × Option JavaException → InjectMacConf × Option JavaException
  | (imc, some .io) => (imc, none)
  | r => r

/-- `loadFile`, of a name with `file` under it: the object afterwards, and the exception if one is
thrown. -/
def loadFile (heap : ℕ) (filename : List Char) (file : FrameFile) :
    InjectMacConf × Option JavaException :=
  let imc := { imc with filename }
  catchIO (match readBuf heap file with
    | .ok buf => execute imc (assignments buf)
    | .error e => (imc, some e))

end InjectMacConf

/-! ### What a header says -/

/-- What the header in a frame says, `none` where it is too short or its type has no name. -/
def describe (filename : List Char) (content : List UInt8) : Option InjectMacConf :=
  let m := Mem.ofList content
  if 22 ≤ content.length then
    (frameTypeText (m.u8At 0 / 4 % 4) (m.u8At 0 / 16)).map fun frameType =>
      { frameType
        addr1 := macStr (m.blockAt 4 6)
        addr2 := macStr (m.blockAt 10 6)
        addr3 := macStr (m.blockAt 16 6)
        info := "flags ".toList ++ hex2 ((m 1).getD 0)
        filename }
  else none

/-- No exception, and either all fields describe the named file or all are as they were. -/
def AllOrNothing (imc : InjectMacConf) (filename : List Char) (file : FrameFile)
    (r : InjectMacConf × Option JavaException) : Prop :=
  r.2 = none ∧
    ((∃ content, file = .readable content ∧ describe filename content = some r.1) ∨ r.1 = imc)

theorem typeBits_eq (b : UInt8) : typeBits b = b.toNat / 4 % 4 := by
  have hb := b.toNat_lt
  unfold typeBits toI8
  split <;> omega

theorem subtypeBits_eq (b : UInt8) : subtypeBits b = b.toNat / 16 := by
  have hb := b.toNat_lt
  unfold subtypeBits toI8
  split <;> omega

/-- Frames of type 3 have one subtype with a name. -/
theorem frameTypeText_isSome {type subtype : ℕ} (htype : type < 4) (hsubtype : subtype < 16) :
    (frameTypeText type subtype).isSome ↔ (type = 3 → subtype = 0) := by
  have hlengths : frameSubtypes.map List.length = [16, 16, 16, 1] := rfl
  have hrow : ∀ row, frameSubtypes[type]? = some row →
      row.length = if type = 3 then 1 else 16 := by
    intro row hrow
    have hlength : (frameSubtypes.map List.length)[type]? = some row.length := by
      rw [List.getElem?_map, hrow, Option.map_some]
    rw [hlengths] at hlength
    match type, htype, hlength with
    | 0, _, h => exact (Option.some.inj h).symm
    | 1, _, h => exact (Option.some.inj h).symm
    | 2, _, h => exact (Option.some.inj h).symm
    | 3, _, h => exact (Option.some.inj h).symm
  obtain ⟨name, hname⟩ : ∃ name, frameTypes[type]? = some name :=
    ⟨_, List.getElem?_eq_getElem htype⟩
  obtain ⟨row, hget⟩ : ∃ row, frameSubtypes[type]? = some row :=
    ⟨_, List.getElem?_eq_getElem htype⟩
  have htext : (frameTypeText type subtype).isSome ↔ subtype < row.length := by
    rcases Nat.lt_or_ge subtype row.length with hlt | hge
    · simp [frameTypeText, hname, hget, hlt]
    · simp [frameTypeText, hname, hget, hge]
  rw [htext, hrow row hget]
  split <;> omega

/-! ### Array accesses -/

theorem map_eq_error {α β ε : Type} {x : Except ε α} {f : α → β} {e : ε}
    (h : (do pure (f (← x))) = Except.error e) : x = .error e := by
  cases x with
  | error e' => rw [Except.error.inj h]
  | ok a => cases h

section Accesses

variable {buf : List UInt8} {i n : ℕ} {e : JavaException}

theorem byteAt_of_lt (h : i < buf.length) : byteAt buf i = .ok ((Mem.ofList buf i).getD 0) := by
  rw [byteAt, Mem.ofList, List.getElem?_eq_getElem h]
  rfl

theorem byteAt_of_le (h : buf.length ≤ i) : byteAt buf i = .error .arrayIndexOutOfBounds := by
  rw [byteAt, List.getElem?_eq_none h]

theorem byteAt_error (h : byteAt buf i = .error e) : e = .arrayIndexOutOfBounds := by
  unfold byteAt at h
  split at h
  · cases h
  · exact (Except.error.inj h).symm

theorem bytesAt_of_le (h : i + n ≤ buf.length) :
    bytesAt buf i n = .ok ((Mem.ofList buf).blockAt i n) := by
  induction n generalizing i with
  | zero => rfl
  | succ n ih =>
    have hblock : (Mem.ofList buf).blockAt i (n + 1) =
        (Mem.ofList buf i).getD 0 :: (Mem.ofList buf).blockAt (i + 1) n := by
      rw [Nat.add_comm n 1, Mem.blockAt_add]
      rfl
    rw [bytesAt, byteAt_of_lt (by omega), ih (by omega), hblock]
    rfl

theorem bytesAt_of_lt (hn : 0 < n) (h : buf.length < i + n) :
    bytesAt buf i n = .error .arrayIndexOutOfBounds := by
  induction n generalizing i with
  | zero => omega
  | succ n ih =>
    rw [bytesAt]
    rcases Nat.lt_or_ge i buf.length with hi | hi
    · rw [byteAt_of_lt hi, ih (by omega) (by omega)]
      rfl
    · rw [byteAt_of_le hi]
      rfl

end Accesses

/-! ### The assignments -/

section Assignments

variable {imc imc' : InjectMacConf} {buf : List UInt8} {i : ℕ} {e : JavaException}

theorem addrText_of_le (h : i + 6 ≤ buf.length) :
    addrText buf i = .ok (macStr ((Mem.ofList buf).blockAt i 6)) := by
  rw [addrText, bytesAt_of_le h]
  rfl

theorem addrText_of_lt (h : buf.length < i + 6) :
    addrText buf i = .error .arrayIndexOutOfBounds := by
  rw [addrText, bytesAt_of_lt (by omega) h]
  rfl

theorem addrText_error (h : addrText buf i = .error e) : e = .arrayIndexOutOfBounds := by
  rcases Nat.lt_or_ge buf.length (i + 6) with hlt | hle
  · rw [addrText_of_lt hlt] at h
    exact (Except.error.inj h).symm
  · rw [addrText_of_le hle] at h
    cases h

theorem assignFrameType_of_pos (h : 0 < buf.length) :
    imc.assignFrameType buf = match frameTypeText ((Mem.ofList buf).u8At 0 / 4 % 4)
        ((Mem.ofList buf).u8At 0 / 16) with
      | some frameType => .ok { imc with frameType }
      | none => .error .arrayIndexOutOfBounds := by
  rw [InjectMacConf.assignFrameType, byteAt_of_lt h, Mem.u8At, ← typeBits_eq, ← subtypeBits_eq]
  rfl

/-- The assignments throw nothing else. -/
theorem assignments_error : ∀ f ∈ InjectMacConf.assignments buf, ∀ imc e, f imc = .error e →
    e = .arrayIndexOutOfBounds := by
  intro f hf imc e h
  simp only [InjectMacConf.assignments, List.mem_cons, List.not_mem_nil, or_false] at hf
  rcases hf with rfl | rfl | rfl | rfl | rfl
  · change imc.assignFrameType buf = _ at h
    rcases Nat.eq_zero_or_pos buf.length with h0 | hpos
    · rw [InjectMacConf.assignFrameType, byteAt_of_le (by omega)] at h
      exact (Except.error.inj h).symm
    · rw [assignFrameType_of_pos hpos] at h
      split at h
      · cases h
      · exact (Except.error.inj h).symm
  · exact addrText_error (map_eq_error h)
  · exact addrText_error (map_eq_error h)
  · exact addrText_error (map_eq_error h)
  · exact byteAt_error (map_eq_error h)

/-- **The assignments make what the header says.** -/
theorem execute_assignments_some (h : describe imc.filename buf = some imc') :
    execute imc (InjectMacConf.assignments buf) = (imc', none) := by
  unfold describe at h
  split at h
  · rename_i hlen
    obtain ⟨frameType, htext, rfl⟩ := Option.map_eq_some_iff.1 h
    have hframeType : imc.assignFrameType buf = .ok { imc with frameType } := by
      rw [assignFrameType_of_pos (by omega), htext]
    rw [InjectMacConf.assignments, execute_ok hframeType,
      execute_ok (by rw [InjectMacConf.assignAddr1, addrText_of_le (by omega)]; rfl),
      execute_ok (by rw [InjectMacConf.assignAddr2, addrText_of_le (by omega)]; rfl),
      execute_ok (by rw [InjectMacConf.assignAddr3, addrText_of_le (by omega)]; rfl),
      execute_ok (by rw [InjectMacConf.assignInfo, byteAt_of_lt (by omega)]; rfl)]
    rfl
  · cases h

/-- A header that says nothing makes one of them throw. -/
theorem execute_assignments_none (h : describe imc.filename buf = none) :
    (execute imc (InjectMacConf.assignments buf)).2 = some .arrayIndexOutOfBounds := by
  unfold describe at h
  split at h
  · rename_i hlen
    rw [Option.map_eq_none_iff] at h
    apply execute_throws List.mem_cons_self _ assignments_error
    intro imc
    rw [assignFrameType_of_pos (by omega), h]
  · rename_i hlen
    apply execute_throws (f := (InjectMacConf.assignAddr3 · buf)) _ _ assignments_error
    · simp [InjectMacConf.assignments]
    · intro imc
      rw [InjectMacConf.assignAddr3, addrText_of_lt (by omega)]
      rfl

end Assignments

/-! ### `loadFile` -/

section LoadFile

variable {heap : ℕ} {imc : InjectMacConf} {filename : List Char} {content : List UInt8}

theorem catchIO_eq {r : InjectMacConf × Option JavaException} (h : r.2 ≠ some .io) :
    InjectMacConf.catchIO r = r := by
  obtain ⟨imc, _ | e⟩ := r
  · rfl
  · cases e with
    | io => exact absurd rfl h
    | _ => rfl

theorem describe_isSome : (describe filename content).isSome ↔
    22 ≤ content.length ∧
      ((Mem.ofList content).u8At 0 / 4 % 4 = 3 → (Mem.ofList content).u8At 0 / 16 = 0) := by
  have h0 := Mem.u8At_lt (m := Mem.ofList content) 0
  unfold describe
  split
  · rename_i hlen
    rw [Option.isSome_map, frameTypeText_isSome (by omega) (by omega), and_iff_right hlen]
  · rename_i hlen
    simp [hlen]

/-- Only the first 22 bytes are looked at. -/
theorem describe_take {k : ℕ} (hk : 22 ≤ k) :
    describe filename (content.take k) = describe filename content := by
  have hmem : ∀ i < 22, Mem.ofList (content.take k) i = Mem.ofList content i := by
    intro i hi
    exact List.getElem?_take_of_lt (by omega)
  have hblock : ∀ i, i + 6 ≤ 22 →
      (Mem.ofList (content.take k)).blockAt i 6 = (Mem.ofList content).blockAt i 6 := by
    intro i hi
    exact Mem.blockAt_congr fun j hj => hmem _ (by omega)
  have hlen : 22 ≤ (content.take k).length ↔ 22 ≤ content.length := by
    rw [List.length_take]
    omega
  simp only [describe, hlen, Mem.u8At, hmem 0 (by omega), hmem 1 (by omega), hblock 4 (by omega),
    hblock 10 (by omega), hblock 16 (by omega)]

/-- Where the array is made, `loadFile` ends as the header in it says. -/
theorem loadFile_readable (h0 : 0 ≤ jint content.length) (hheap : jint content.length ≤ heap) :
    (∃ imc', describe filename (content.take (jint content.length).toNat) = some imc' ∧
      imc.loadFile heap filename (.readable content) = (imc', none)) ∨
    (describe filename (content.take (jint content.length).toNat) = none ∧
      (imc.loadFile heap filename (.readable content)).2 = some .arrayIndexOutOfBounds) := by
  have hbuf : readBuf heap (.readable content) =
      .ok (content.take (jint content.length).toNat) := by
    rw [readBuf, FrameFile.length, if_neg (by omega), if_neg (by omega)]
  cases hdescribe : describe filename (content.take (jint content.length).toNat) with
  | some imc' =>
    refine .inl ⟨imc', rfl, ?_⟩
    rw [InjectMacConf.loadFile, hbuf]
    dsimp only
    rw [execute_assignments_some hdescribe]
    rfl
  | none =>
    refine .inr ⟨rfl, ?_⟩
    have hthrows : (execute { imc with filename } (InjectMacConf.assignments _)).2 = _ :=
      execute_assignments_none hdescribe
    rw [InjectMacConf.loadFile, hbuf]
    dsimp only
    rw [catchIO_eq (by simp [hthrows]), hthrows]

/-- An error on opening or reading is caught behind the assignment of the name. -/
theorem loadFile_io {file : FrameFile} (h0 : 0 ≤ jint file.length) (hheap : jint file.length ≤ heap)
    (hfile : ∀ content, file ≠ .readable content) :
    imc.loadFile heap filename file = ({ imc with filename }, none) := by
  have hbuf : readBuf heap file = .error .io := by
    unfold readBuf
    rw [if_neg (by omega), if_neg (by omega)]
    cases file with
    | missing => rfl
    | unreadable length => rfl
    | readable content => exact absurd rfl (hfile content)
  rw [InjectMacConf.loadFile, hbuf]
  rfl

/-- Without an array an exception is thrown. -/
theorem loadFile_noArray {file : FrameFile}
    (h : ¬ (0 ≤ jint file.length ∧ jint file.length ≤ heap)) :
    (imc.loadFile heap filename file).2 ≠ none := by
  have hbuf : readBuf heap file = .error .negativeArraySize ∨
      readBuf heap file = .error .outOfMemory := by
    unfold readBuf
    split_ifs with hneg hbig
    · exact .inl rfl
    · exact .inr rfl
    · omega
  rw [InjectMacConf.loadFile]
  rcases hbuf with hbuf | hbuf
  · simp [hbuf, InjectMacConf.catchIO]
  · simp [hbuf, InjectMacConf.catchIO]

end LoadFile

/-- There is memory for the array, and the file has a header whose type has a name; one that cannot be
read has the name that is displayed already. -/
def Loadable (heap : ℕ) (imc : InjectMacConf) (filename : List Char) (file : FrameFile) : Prop :=
  0 ≤ jint file.length ∧ jint file.length ≤ heap ∧
    match file with
    | .readable content => 22 ≤ jint content.length ∧
      ((Mem.ofList content).u8At 0 / 4 % 4 = 3 → (Mem.ofList content).u8At 0 / 16 = 0)
    | _ => filename = imc.filename

/-- A readable file, as far as it fits the array. -/
theorem loadFile_readable_iff {heap : ℕ} {imc : InjectMacConf} {filename : List Char}
    {content : List UInt8} (h0 : 0 ≤ jint content.length) (hheap : jint content.length ≤ heap) :
    AllOrNothing imc filename (.readable content)
        (imc.loadFile heap filename (.readable content)) ↔
      22 ≤ jint content.length ∧
        ((Mem.ofList content).u8At 0 / 4 % 4 = 3 → (Mem.ofList content).u8At 0 / 16 = 0) := by
  have hle : jint content.length ≤ content.length := by
    rw [jint_eq]
    omega
  rcases loadFile_readable h0 hheap with ⟨imc', hread, hend⟩ | ⟨hread, hend⟩
  · -- the array has a header with a name, and the file the same one
    have hlen : 22 ≤ (content.take (jint content.length).toNat).length :=
      (describe_isSome.1 (Option.isSome_of_mem hread)).1
    rw [List.length_take] at hlen
    rw [describe_take (by omega)] at hread
    have hname := (describe_isSome.1 (Option.isSome_of_mem hread)).2
    rw [hend]
    constructor
    · intro _
      exact ⟨by omega, hname⟩
    · intro _
      exact ⟨rfl, .inl ⟨content, rfl, hread⟩⟩
  · constructor
    · intro h
      rw [h.1] at hend
      cases hend
    · rintro ⟨hlen, hname⟩
      rw [describe_take (by omega)] at hread
      have hsome : (describe filename content).isSome := describe_isSome.2 ⟨by omega, hname⟩
      rw [hread] at hsome
      cases hsome

/-- **`loadFile` is all-or-nothing** exactly on these. -/
theorem loadFile_whole_iff {heap : ℕ} {imc : InjectMacConf} {filename : List Char}
    {file : FrameFile} :
    AllOrNothing imc filename file (imc.loadFile heap filename file) ↔
      Loadable heap imc filename file := by
  unfold Loadable
  by_cases harray : 0 ≤ jint file.length ∧ jint file.length ≤ heap
  · obtain ⟨h0, hheap⟩ := harray
    rw [and_iff_right h0, and_iff_right hheap]
    cases file with
    | missing =>
      rw [loadFile_io h0 hheap (by simp)]
      simp [AllOrNothing, InjectMacConf.ext_iff]
    | unreadable length =>
      rw [loadFile_io h0 hheap (by simp)]
      simp [AllOrNothing, InjectMacConf.ext_iff]
    | readable content => exact loadFile_readable_iff h0 hheap
  · constructor
    · intro h
      exact absurd h.1 (loadFile_noArray harray)
    · intro h
      exact absurd ⟨h.1, h.2.1⟩ harray

/-- A name with no file under it is taken over, with the texts of the frame before it. -/
theorem loadFile_missing :
    ¬ AllOrNothing {} "beacon.bin".toList .missing
      (InjectMacConf.loadFile {} 65536 "beacon.bin".toList .missing) := by
  rintro ⟨-, ⟨content, hcontent, -⟩ | hsame⟩
  · cases hcontent
  · have hname := congrArg (fun imc => imc.filename.length) hsame
    revert hname
    decide +kernel

end LocTag
