import LocTag.Java

/-!
# The hexadecimal dump

`hexDump` of `mcutils.c`: lines of sixteen bytes with their offset, the bytes in hexadecimal and a
column of the characters among them.  The characters are gathered in a buffer of 17 bytes while the
cells are printed; the column of a line is printed when the next line starts, or after the loop.

`dumpLine` says what a line shows, `LineOpen` is the invariant of the loop, and `readDump` reads the
bytes back.  `hexDump_prints` puts them together: every byte is printed once and in order.
-/

namespace LocTag

open Lib

/-! ### `hexDump` -/

/-- `unsigned char buff[17]` -/
structure LineBuffer where
  data : List UInt8
  length_eq : data.length = 17

/-- `buff[i] = b`, `none` where `i` is not an index of it. -/
def LineBuffer.store (buff : LineBuffer) (i : ℤ) (b : UInt8) : Option LineBuffer :=
  if 0 ≤ i ∧ i < 17 then
    some ⟨buff.data.set i.toNat b, by rw [List.length_set, buff.length_eq]⟩
  else none

/-- What `%s` prints of it, `none` where it has no NUL. -/
def LineBuffer.text (buff : LineBuffer) : Option (List Char) :=
  if 0 ∈ buff.data then
    some ((buff.data.takeWhile (· ≠ 0)).map fun b => Char.ofNat b.toNat)
  else none

/-- The variables of `hexDump`, and what it has printed. -/
structure DumpState where
  i : ℤ
  buff : LineBuffer
  out : List Char

/-- The part of a round for `i % 16 == 0`: the column of the line before, and the offset. -/
def dumpOffset (st : DumpState) : Option DumpState :=
  if st.i.tmod 16 = 0 then do
    let column ← if st.i ≠ 0 then st.buff.text.map fun s => "  ".toList ++ s ++ ['\n'] else some []
    some { st with out := st.out ++ column ++ "  ".toList ++ hexPad 4 (toU32 st.i) ++ [' '] }
  else some st

/-- `pc[i]`, `none` where there is no such byte. -/
def pcAt (pc : List UInt8) (i : ℤ) : Option UInt8 := if 0 ≤ i then pc[i.toNat]? else none

/-- The byte stored for the column. -/
def columnByte (b : UInt8) : UInt8 := if b < 0x20 ∨ b > 0x7e then 0x2e else b

/-- The rest of a round: the cell, and the byte for the column with a NUL behind it. -/
def dumpCell (pc : List UInt8) (st : DumpState) : Option DumpState := do
  let b ← pcAt pc st.i
  let buff ← st.buff.store (st.i.tmod 16) (columnByte b)
  let buff ← buff.store (st.i.tmod 16 + 1) 0
  some { i := jint (st.i + 1), buff, out := st.out ++ ' ' :: hex2 b }

/-- The rounds of the `for` loop that are left. -/
def dumpBytes (pc : List UInt8) (st : DumpState) : ℕ → Option DumpState
  | 0 => some st
  | n + 1 => do
    let st ← dumpOffset st
    let st ← dumpCell pc st
    dumpBytes pc st n

/-- What the `while` loop prints.  Where the last line ends at `2 ^ 31`, `i` wraps to a multiple of
16 as well. -/
def padLine (i : ℤ) : List Char :=
  if i.tmod 16 ≠ 0 then "   ".toList ++ padLine (jint (i + 1)) else []
  termination_by (-i % 16).toNat
  decreasing_by
    rename_i h
    have hmod : i % 16 ≠ 0 := fun h0 => h (Int.tmod_eq_zero_of_dvd (Int.dvd_of_emod_eq_zero h0))
    rw [jint_eq]
    omega

/-- The description, if there is one. -/
def dumpHead (desc : Option (List Char)) (len : ℤ) : List Char :=
  match desc with
  | some desc => desc ++ " (".toList ++ decimal len ++ " bytes):\n".toList
  | none => []

/-- `hexDump(desc, addr, len)`, with what is in its uninitialised buffer: what it returns and
prints. -/
def hexDump (buff : LineBuffer) (desc : Option (List Char)) (pc : List UInt8) (len : ℤ) :
    Option (ℤ × List Char) :=
  let head := dumpHead desc len
  if len = 0 then some (-1, head ++ "  ZERO LENGTH\n".toList)
  else if len < 0 then
    some (-2, head ++ "  NEGATIVE LENGTH: ".toList ++ decimal len ++ ['\n'])
  else do
    let st ← dumpBytes pc { i := 0, buff, out := head } len.toNat
    let column ← st.buff.text
    some (0, st.out ++ padLine st.i ++ "  ".toList ++ column ++ ['\n'])

/-! ### The lines of a dump -/

/-- The cell of a byte, blank where there is none. -/
def cellText : Option UInt8 → List Char
  | some b => ' ' :: hex2 b
  | none => "   ".toList

/-- The character of a byte in the column. -/
def columnChar (b : UInt8) : Char := if 0x20 ≤ b ∧ b ≤ 0x7e then Char.ofNat b.toNat else '.'

/-- The column of line `k`. -/
def dumpColumn (bytes : List UInt8) (k : ℕ) : List Char := (chunk 16 bytes k).map columnChar

/-- Line `k`: the offset, sixteen cells and the column. -/
def dumpLine (bytes : List UInt8) (k : ℕ) : List Char :=
  "  ".toList ++ hexPad 4 (16 * k) ++ [' '] ++
    (List.range 16).flatMap (fun j => cellText bytes[16 * k + j]?) ++
    "  ".toList ++ dumpColumn bytes k

/-- What is read of the cells of a line: up to the first blank one. -/
def readCells : List Char → List UInt8
  | _ :: a :: b :: s =>
    match digitVal a, digitVal b with
    | some x, some y => UInt8.ofNat (16 * x + y) :: readCells s
    | _, _ => []
  | _ => []

/-- The bytes a line shows. -/
def readLine (s : List Char) : List UInt8 := readCells ((s.drop 2).dropWhile (· ≠ ' ')).tail

/-- The bytes a dump shows. -/
def readDump (text : List Char) : List UInt8 := (text.splitOn '\n').flatMap readLine

/-- The cells of a row of bytes. -/
def rowCells (row : List UInt8) : List Char := row.flatMap fun b => ' ' :: hex2 b

/-- A line without its column, after the bytes of `row`. -/
def lineFront (off : ℕ) (row : List UInt8) : List Char :=
  "  ".toList ++ hexPad 4 off ++ [' '] ++ rowCells row

/-- `m` blank cells. -/
def blanks (m : ℕ) : List Char := (List.replicate m "   ".toList).flatten

/-- The line of a row of bytes. -/
def rowLine (off : ℕ) (row : List UInt8) : List Char :=
  lineFront off row ++ blanks (16 - row.length) ++ "  ".toList ++ row.map columnChar

theorem flatMap_cellText {row : List UInt8} {n : ℕ} (h : row.length ≤ n) :
    (List.range n).flatMap (fun j => cellText row[j]?) =
      rowCells row ++ blanks (n - row.length) := by
  induction row generalizing n with
  | nil => simp [rowCells, blanks, cellText, List.flatMap_def, List.map_const']
  | cons b row ih =>
    rw [List.length_cons] at h ⊢
    obtain ⟨m, rfl⟩ : ∃ m, n = m + 1 := ⟨n - 1, by omega⟩
    have hhead : cellText (b :: row)[0]? = ' ' :: hex2 b := rfl
    have htail : (List.range m).flatMap (fun j => cellText (b :: row)[j + 1]?) =
        rowCells row ++ blanks (m - row.length) := ih (by omega)
    rw [List.range_succ_eq_map, List.flatMap_cons, List.flatMap_map, hhead, htail,
      Nat.add_sub_add_right, rowCells, rowCells, List.flatMap_cons, List.append_assoc]

/-- A line is that of its chunk. -/
theorem dumpLine_eq (bytes : List UInt8) (k : ℕ) :
    dumpLine bytes k = rowLine (16 * k) (chunk 16 bytes k) := by
  have hlen : (chunk 16 bytes k).length ≤ 16 := by
    rw [length_chunk]
    omega
  have hcells : (List.range 16).flatMap (fun j => cellText bytes[16 * k + j]?) =
      (List.range 16).flatMap fun j => cellText (chunk 16 bytes k)[j]? := by
    apply List.flatMap_congr
    intro j hj
    rw [getElem?_chunk (List.mem_range.1 hj)]
  rw [dumpLine, hcells, flatMap_cellText hlen, rowLine, lineFront, dumpColumn]
  simp only [List.append_assoc]

theorem dumpLine_append_left {bytes more : List UInt8} {k : ℕ} (h : 16 * k + 16 ≤ bytes.length) :
    dumpLine (bytes ++ more) k = dumpLine bytes k := by
  rw [dumpLine_eq, dumpLine_eq, chunk_append_left h]

theorem dumpLine_append_right {bytes row : List UInt8} {k : ℕ} (h : bytes.length = 16 * k)
    (hrow : row.length ≤ 16) : dumpLine (bytes ++ row) k = rowLine (16 * k) row := by
  rw [dumpLine_eq, chunk_append_right h hrow]

/-! ### Reading a dump -/

theorem readCells_hex2 (b : UInt8) (s : List Char) :
    readCells (' ' :: hex2 b ++ s) = b :: readCells s := by
  have hb := b.toNat_lt
  have hhigh := digitVal_digitChar (by omega : b.toNat / 16 < 16)
  have hlow := digitVal_digitChar (by omega : b.toNat % 16 < 16)
  have hbyte : UInt8.ofNat (16 * (b.toNat / 16) + b.toNat % 16) = b := by
    rw [Nat.div_add_mod, UInt8.ofNat_toNat]
  simp only [hex2, List.cons_append, List.nil_append, readCells, hhigh, hlow, hbyte]

theorem readCells_rowCells (row : List UInt8) (s : List Char) :
    readCells (rowCells row ++ s) = row ++ readCells s := by
  induction row with
  | nil => rfl
  | cons b row ih =>
    rw [rowCells, List.flatMap_cons, List.append_assoc, readCells_hex2, ← rowCells, ih,
      List.cons_append]

/-- Nothing is read of a blank cell, nor of the column. -/
theorem readCells_blank (s : List Char) : readCells (' ' :: ' ' :: s) = [] := by
  cases s with
  | nil => rfl
  | cons c s => rfl

theorem readCells_blanks (m : ℕ) (s : List Char) :
    readCells (blanks m ++ ("  ".toList ++ s)) = [] := by
  cases m with
  | zero => exact readCells_blank s
  | succ m => exact readCells_blank _

theorem readLine_rowLine (off : ℕ) (row : List UInt8) : readLine (rowLine off row) = row := by
  have hoff := not_mem_hexPad (rfl : digitVal ' ' = none) 4 off
  have hdrop : (rowLine off row).drop 2 =
      hexPad 4 off ++ ' ' :: (rowCells row ++
        (blanks (16 - row.length) ++ ("  ".toList ++ row.map columnChar))) := by
    simp only [rowLine, lineFront, List.append_assoc, List.singleton_append]
    rfl
  rw [readLine, hdrop, dropWhile_append_sep hoff, List.tail_cons, readCells_rowCells,
    readCells_blanks, List.append_nil]

theorem toNat_ofNat {n : ℕ} (h : n < 55296) : (Char.ofNat n).toNat = n := by
  have hvalid : n.isValidChar := .inl h
  rw [Char.ofNat, dif_pos hvalid]
  rfl

theorem columnChar_ne_newline (b : UInt8) : columnChar b ≠ '\n' := by
  have hb := b.toNat_lt
  unfold columnChar
  split
  · rename_i h
    have hlow : 32 ≤ b.toNat := UInt8.le_iff_toNat_le.1 h.1
    intro hc
    have hnat : (Char.ofNat b.toNat).toNat = 10 := congrArg Char.toNat hc
    rw [toNat_ofNat (by omega)] at hnat
    omega
  · simp

theorem not_mem_rowLine (off : ℕ) (row : List UInt8) : '\n' ∉ rowLine off row := by
  have hoff := not_mem_hexPad (rfl : digitVal '\n' = none) 4 off
  have hcell := not_mem_hex2 (rfl : digitVal '\n' = none)
  simp [rowLine, lineFront, rowCells, blanks, hoff, hcell, columnChar_ne_newline]

/-! ### The buffer -/

theorem columnByte_ne_zero (b : UInt8) : columnByte b ≠ 0 := by
  unfold columnByte
  split
  · simp
  · rename_i h
    rintro rfl
    simp at h

theorem ofNat_columnByte (b : UInt8) : Char.ofNat (columnByte b).toNat = columnChar b := by
  unfold columnByte columnChar
  by_cases h : 0x20 ≤ b ∧ b ≤ 0x7e
  · rw [if_pos h, if_neg (by simpa [not_or] using h)]
  · have hout : b < 0x20 ∨ b > 0x7e := (not_and_or.1 h).imp UInt8.not_le.1 UInt8.not_le.1
    rw [if_neg h, if_pos hout]
    rfl

/-- The buffer holds the column of `row`, with a NUL behind it. -/
structure LineBuffer.Shows (buff : LineBuffer) (row : List UInt8) : Prop where
  column : buff.data.take row.length = row.map columnByte
  ended : buff.data[row.length]? = some 0

section Buffer

variable {buff : LineBuffer} {row : List UInt8}

/-- What an earlier line left behind the NUL is not printed. -/
theorem LineBuffer.Shows.text_eq (h : buff.Shows row) :
    buff.text = some (row.map columnChar) := by
  obtain ⟨hlt, hzero⟩ := List.getElem?_eq_some_iff.1 h.ended
  have hdata : buff.data = row.map columnByte ++ 0 :: buff.data.drop (row.length + 1) := by
    rw [← h.column, ← hzero, ← List.drop_eq_getElem_cons hlt, List.take_append_drop]
  have hmem : 0 ∈ buff.data := by
    rw [hdata]
    simp
  have hcol : 0 ∉ row.map columnByte := by
    intro h0
    obtain ⟨b, -, hb⟩ := List.mem_map.1 h0
    exact columnByte_ne_zero b hb
  rw [LineBuffer.text, if_pos hmem, hdata, takeWhile_append_sep hcol, List.map_map]
  exact congrArg some (List.map_congr_left fun b _ => ofNat_columnByte b)

theorem LineBuffer.store_of_lt {k : ℕ} (h : k < 17) (b : UInt8) :
    ∃ buff', buff.store k b = some buff' ∧ buff'.data = buff.data.set k b := by
  rw [LineBuffer.store, if_pos (by omega)]
  exact ⟨_, rfl, rfl⟩

/-- The two stores of a round lengthen the column. -/
theorem LineBuffer.store_shows (hrow : row.length < 16)
    (hcol : buff.data.take row.length = row.map columnByte) (b : UInt8) :
    ∃ buff₁ buff₂, buff.store row.length (columnByte b) = some buff₁ ∧
      buff₁.store ((row.length : ℤ) + 1) 0 = some buff₂ ∧ buff₂.Shows (row ++ [b]) := by
  have hlen := buff.length_eq
  obtain ⟨buff₁, hstore₁, hdata₁⟩ :=
    buff.store_of_lt (by omega : row.length < 17) (columnByte b)
  obtain ⟨buff₂, hstore₂, hdata₂⟩ := buff₁.store_of_lt (by omega : row.length + 1 < 17) 0
  refine ⟨buff₁, buff₂, hstore₁, hstore₂, ?_, ?_⟩
  · rw [hdata₂, hdata₁, List.length_append, List.length_singleton, List.take_set_of_le le_rfl,
      List.take_add_one, List.take_set_of_le le_rfl, hcol, List.getElem?_set_self (by omega),
      List.map_append]
    rfl
  · rw [hdata₂, hdata₁, List.length_append, List.length_singleton, List.getElem?_set_self]
    rw [List.length_set]
    omega

end Buffer

/-! ### The loops -/

/-- What a dump prints behind the description. -/
def dumpText (bytes : List UInt8) : List Char :=
  terminated '\n' ((List.range ((bytes.length + 15) / 16)).map (dumpLine bytes))

/-- The line of the bytes behind full lines. -/
theorem dumpText_append {bytes row : List UInt8} (hfull : bytes.length % 16 = 0) (hne : row ≠ [])
    (hrow : row.length ≤ 16) :
    dumpText (bytes ++ row) = dumpText bytes ++ rowLine bytes.length row ++ ['\n'] := by
  obtain ⟨k, hk⟩ : ∃ k, bytes.length = 16 * k := ⟨bytes.length / 16, by omega⟩
  have hpos := List.length_pos_of_ne_nil hne
  have hlines : (bytes.length + 15) / 16 = k := by omega
  have hmore : ((bytes ++ row).length + 15) / 16 = k + 1 := by
    rw [List.length_append]
    omega
  have hold : (List.range k).map (dumpLine (bytes ++ row)) =
      (List.range k).map (dumpLine bytes) := by
    apply List.map_congr_left
    intro j hj
    have hlt := List.mem_range.1 hj
    exact dumpLine_append_left (by omega)
  rw [dumpText, dumpText, hlines, hmore, List.range_succ, List.map_append, hold, terminated,
    List.flatMap_append, List.map_singleton, List.flatMap_singleton,
    dumpLine_append_right hk hrow, hk, terminated, List.append_assoc]

/-- The state with line `shown.length / 16` open: the lines of `shown` are printed, and the bytes of
`row` are in the cells of the open one and in the buffer. -/
structure LineOpen (head : List Char) (shown row : List UInt8) (st : DumpState) : Prop where
  i_eq : st.i = ((shown.length + row.length : ℕ) : ℤ)
  full : shown.length % 16 = 0
  row_le : row.length ≤ 16
  buff_shows : row ≠ [] → st.buff.Shows row
  out_eq : st.out = head ++ dumpText shown ++ lineFront shown.length row

section Rounds

variable {head : List Char} {shown row pc : List UInt8} {st : DumpState}

theorem tmod_natCast (n : ℕ) : (n : ℤ).tmod 16 = ((n % 16 : ℕ) : ℤ) := (Int.ofNat_tmod n 16).symm

/-- The first line is opened. -/
theorem dumpOffset_start (buff : LineBuffer) (head : List Char) :
    ∃ st, dumpOffset { i := 0, buff, out := head } = some st ∧ LineOpen head [] [] st := by
  refine ⟨_, rfl, ?_⟩
  constructor
  case i_eq => rfl
  case full => rfl
  case row_le => simp
  case buff_shows => simp
  case out_eq => simp [dumpText, terminated, lineFront, rowCells, toU32]

/-- Within a line nothing is opened. -/
theorem LineOpen.dumpOffset_of_lt (h : LineOpen head shown row st) (hne : row ≠ [])
    (hlt : row.length < 16) : dumpOffset st = some st := by
  have hpos := List.length_pos_of_ne_nil hne
  have hfull := h.full
  have hmod : st.i.tmod 16 ≠ 0 := by
    rw [h.i_eq, tmod_natCast]
    omega
  rw [dumpOffset, if_neg hmod]

/-- Behind a full line the next one is opened. -/
theorem LineOpen.dumpOffset_of_eq (h : LineOpen head shown row st) (heq : row.length = 16)
    (hint : shown.length + row.length < 2147483648) :
    ∃ st', dumpOffset st = some st' ∧ LineOpen head (shown ++ row) [] st' := by
  have hfull := h.full
  have hne : row ≠ [] := List.ne_nil_of_length_pos (by omega)
  have hmod : st.i.tmod 16 = 0 := by
    rw [h.i_eq, tmod_natCast]
    omega
  have hi : st.i ≠ 0 := by
    rw [h.i_eq]
    omega
  have hoff : toU32 st.i = (shown ++ row).length := by
    rw [h.i_eq, toU32, List.length_append]
    omega
  rw [dumpOffset, if_pos hmod, if_pos hi, (h.buff_shows hne).text_eq]
  refine ⟨_, rfl, ?_⟩
  constructor
  case i_eq => simp [h.i_eq]
  case full =>
    rw [List.length_append]
    omega
  case row_le => simp
  case buff_shows => simp
  case out_eq =>
    have hclosed : rowLine shown.length row =
        lineFront shown.length row ++ "  ".toList ++ row.map columnChar := by
      simp [rowLine, heq, blanks]
    rw [dumpText_append h.full hne h.row_le, hclosed, h.out_eq, hoff]
    simp [lineFront, rowCells, List.append_assoc]

/-- A cell is printed. -/
theorem LineOpen.cell (h : LineOpen head shown row st) (hlt : row.length < 16) {b : UInt8}
    (hb : pc[shown.length + row.length]? = some b)
    (hint : shown.length + row.length + 1 < 2147483648) :
    ∃ st', dumpCell pc st = some st' ∧ LineOpen head shown (row ++ [b]) st' := by
  have hfull := h.full
  have hmod : st.i.tmod 16 = row.length := by
    rw [h.i_eq, tmod_natCast]
    omega
  have hpc : pcAt pc st.i = some b := by
    rw [pcAt, h.i_eq, if_pos (by omega), Int.toNat_natCast, hb]
  have hcol : st.buff.data.take row.length = row.map columnByte := by
    cases hrow : row with
    | nil => rfl
    | cons c s => exact hrow ▸ (h.buff_shows (by simp [hrow])).column
  obtain ⟨buff₁, buff₂, hstore₁, hstore₂, hshows⟩ := LineBuffer.store_shows hlt hcol b
  have hnext : jint (st.i + 1) = ((shown.length + (row ++ [b]).length : ℕ) : ℤ) := by
    rw [h.i_eq, List.length_append, List.length_singleton, jint_eq_self_iff.2 (by omega)]
    omega
  refine ⟨{ i := jint (st.i + 1), buff := buff₂, out := st.out ++ ' ' :: hex2 b }, ?_, ?_⟩
  · simp only [dumpCell, hpc, hmod, hstore₁, hstore₂, Option.bind_eq_bind, Option.bind_some]
  · constructor
    case i_eq => exact hnext
    case full => exact h.full
    case row_le =>
      rw [List.length_append, List.length_singleton]
      omega
    case buff_shows => exact fun _ => hshows
    case out_eq => simp [h.out_eq, lineFront, rowCells]

/-- **A round** shows one more byte. -/
theorem LineOpen.round {b : UInt8} {todo : List UInt8} (h : LineOpen head shown row st)
    (hne : row ≠ []) (hpc : pc = shown ++ row ++ b :: todo) (hint : pc.length < 2147483648) :
    ∃ shown' row' st', (dumpOffset st).bind (dumpCell pc) = some st' ∧ row' ≠ [] ∧
      shown' ++ row' = shown ++ row ++ [b] ∧ LineOpen head shown' row' st' := by
  have hlen : shown.length + row.length + 1 ≤ pc.length := by
    rw [hpc, List.length_append, List.length_append, List.length_cons]
    omega
  have hb : pc[shown.length + row.length]? = some b := by
    rw [hpc, ← List.length_append, List.getElem?_append_right le_rfl, Nat.sub_self]
    rfl
  rcases Nat.lt_or_eq_of_le h.row_le with hlt | heq
  · obtain ⟨st', hcell, h'⟩ := h.cell hlt hb (by omega)
    refine ⟨shown, row ++ [b], st', ?_, by simp, by simp, h'⟩
    rw [h.dumpOffset_of_lt hne hlt, Option.bind_some, hcell]
  · obtain ⟨st₁, hoffset, h₁⟩ := h.dumpOffset_of_eq heq (by omega)
    have hb₁ : pc[(shown ++ row).length + ([] : List UInt8).length]? = some b := by
      rw [List.length_append]
      exact hb
    have hint₁ : (shown ++ row).length + ([] : List UInt8).length + 1 < 2147483648 := by
      rw [List.length_append, List.length_nil]
      omega
    obtain ⟨st', hcell, h'⟩ := h₁.cell (by simp) hb₁ hint₁
    refine ⟨shown ++ row, [b], st', ?_, by simp, rfl, h'⟩
    rw [hoffset, Option.bind_some, hcell]

theorem dumpBytes_succ (pc : List UInt8) (st : DumpState) (n : ℕ) :
    dumpBytes pc st (n + 1) =
      ((dumpOffset st).bind (dumpCell pc)).bind fun st => dumpBytes pc st n := by
  rw [Option.bind_assoc]
  rfl

/-- **The rounds that are left** show the bytes that are left. -/
theorem LineOpen.rounds {todo : List UInt8} (h : LineOpen head shown row st) (hne : row ≠ [])
    (hpc : pc = shown ++ row ++ todo) (hint : pc.length < 2147483648) :
    ∃ shown' row' st', dumpBytes pc st todo.length = some st' ∧ row' ≠ [] ∧
      shown' ++ row' = pc ∧ LineOpen head shown' row' st' := by
  induction todo generalizing shown row st with
  | nil =>
    rw [List.append_nil] at hpc
    exact ⟨shown, row, st, rfl, hne, hpc.symm, h⟩
  | cons b todo ih =>
    obtain ⟨shown₁, row₁, st₁, hround, hne₁, happ, h₁⟩ := h.round hne hpc hint
    have hpc₁ : pc = shown₁ ++ row₁ ++ todo := by
      rw [happ, hpc, List.append_assoc (shown ++ row), List.singleton_append]
    rw [List.length_cons, dumpBytes_succ, hround, Option.bind_some]
    exact ih h₁ hne₁ hpc₁

/-- The whole loop, from the first byte on. -/
theorem dumpBytes_all (buff : LineBuffer) (head : List Char) {bytes : List UInt8}
    (hpos : 1 ≤ bytes.length) (hint : bytes.length < 2147483648) :
    ∃ shown row st, dumpBytes bytes { i := 0, buff, out := head } bytes.length = some st ∧
      row ≠ [] ∧ shown ++ row = bytes ∧ LineOpen head shown row st := by
  obtain ⟨b, todo, rfl⟩ := List.exists_cons_of_ne_nil (List.ne_nil_of_length_pos hpos)
  obtain ⟨st₀, hoffset, h₀⟩ := dumpOffset_start buff head
  have hb : (b :: todo)[([] : List UInt8).length + ([] : List UInt8).length]? = some b := rfl
  obtain ⟨st₁, hcell, h₁⟩ := h₀.cell (by simp) hb (by simp)
  rw [List.length_cons, dumpBytes_succ, hoffset, Option.bind_some, hcell, Option.bind_some]
  exact h₁.rounds (by simp) rfl hint

end Rounds

theorem tmod_jint_eq_zero_iff {x : ℤ} : (jint x).tmod 16 = 0 ↔ x % 16 = 0 := by
  rw [← Int.dvd_iff_tmod_eq_zero, jint_eq]
  omega

/-- The `while` loop fills the cells of the line that are left, also where `i` wraps. -/
theorem padLine_eq {off : ℤ} (hoff : off % 16 = 0) {m : ℕ} (hm : m < 16) :
    padLine (jint (off + 16 - m)) = blanks m := by
  induction m with
  | zero =>
    have hend : (jint (off + 16 - (0 : ℕ))).tmod 16 = 0 := tmod_jint_eq_zero_iff.2 (by omega)
    rw [padLine, if_neg (not_not.2 hend)]
    rfl
  | succ m ih =>
    have hmore : (jint (off + 16 - (m + 1 : ℕ))).tmod 16 ≠ 0 := by
      rw [Ne, tmod_jint_eq_zero_iff]
      omega
    have hnext : jint (jint (off + 16 - (m + 1 : ℕ)) + 1) = jint (off + 16 - m) := by
      rw [jint_add_jint]
      congr 1
      omega
    rw [padLine, if_pos hmore, hnext, ih (by omega)]
    rfl

/-- What is printed after the loop closes the last line. -/
theorem LineOpen.close {head : List Char} {shown row : List UInt8} {st : DumpState}
    (h : LineOpen head shown row st) (hne : row ≠ [])
    (hint : shown.length + row.length < 2147483648) :
    ∃ column, st.buff.text = some column ∧
      st.out ++ padLine st.i ++ "  ".toList ++ column ++ ['\n'] =
        head ++ dumpText (shown ++ row) := by
  have hfull := h.full
  have hrow := h.row_le
  have hpos := List.length_pos_of_ne_nil hne
  have hpad : padLine st.i = blanks (16 - row.length) := by
    have hi : st.i = jint ((shown.length : ℤ) + 16 - (16 - row.length : ℕ)) := by
      rw [jint_eq_self_iff.2 (by omega), h.i_eq]
      omega
    rw [hi, padLine_eq (by omega) (by omega)]
  refine ⟨row.map columnChar, (h.buff_shows hne).text_eq, ?_⟩
  rw [hpad, h.out_eq, dumpText_append h.full hne h.row_le, rowLine]
  simp only [List.append_assoc]

/-! ### The dump -/

theorem hexDump_eq (buff : LineBuffer) (desc : Option (List Char)) {bytes : List UInt8}
    (hpos : 1 ≤ bytes.length) (hint : bytes.length < 2147483648) :
    hexDump buff desc bytes bytes.length =
      some (0, dumpHead desc bytes.length ++ dumpText bytes) := by
  obtain ⟨shown, row, st, hrun, hne, rfl, h⟩ :=
    dumpBytes_all buff (dumpHead desc bytes.length) hpos hint
  rw [List.length_append] at hint
  obtain ⟨column, htext, hclose⟩ := h.close hne hint
  have hzero : ((shown ++ row).length : ℤ) ≠ 0 := by omega
  have hneg : ¬ ((shown ++ row).length : ℤ) < 0 := by omega
  rw [hexDump, if_neg hzero, if_neg hneg, Int.toNat_natCast, hrun]
  simp only [Option.bind_eq_bind, Option.bind_some, htext, hclose]

theorem splitOn_dumpText (bytes : List UInt8) :
    (dumpText bytes).splitOn '\n' =
      (List.range ((bytes.length + 15) / 16)).map (dumpLine bytes) ++ [[]] := by
  rw [dumpText, splitOn_terminated_iff, List.forall_mem_map]
  intro k _
  rw [dumpLine_eq]
  exact not_mem_rowLine _ _

/-- **The bytes are read back** from the text. -/
theorem readDump_dumpText (bytes : List UInt8) : readDump (dumpText bytes) = bytes := by
  have hlines : ∀ k, readLine (dumpLine bytes k) = chunk 16 bytes k := by
    intro k
    rw [dumpLine_eq, readLine_rowLine]
  rw [readDump, splitOn_dumpText, List.flatMap_append, List.flatMap_map]
  simp only [hlines, flatMap_chunk]
  rw [List.take_of_length_le (by omega)]
  exact List.append_nil bytes

/-- **`hexDump` prints every byte once and in order**: the lines, the lengths of their columns, and
what is read back.  No index of the buffer is out of range, or there would be no result. -/
theorem hexDump_prints (buff : LineBuffer) (desc : Option (List Char)) {bytes : List UInt8}
    (hpos : 1 ≤ bytes.length) (hint : bytes.length < 2147483648) :
    ∃ text, hexDump buff desc bytes bytes.length =
        some (0, dumpHead desc bytes.length ++ text) ∧
      text.splitOn '\n' = (List.range ((bytes.length + 15) / 16)).map (dumpLine bytes) ++ [[]] ∧
      (∀ k, (dumpColumn bytes k).length = min 16 (bytes.length - 16 * k)) ∧
      readDump text = bytes := by
  refine ⟨dumpText bytes, hexDump_eq buff desc hpos hint, splitOn_dumpText bytes, ?_,
    readDump_dumpText bytes⟩
  intro k
  rw [dumpColumn, List.length_map, length_chunk]

/-- Three bytes. -/
theorem hexDump_prints_three :
    ∃ text, hexDump ⟨List.replicate 17 0xff, rfl⟩ (some "csi".toList) [0x48, 0x69, 0x0a] 3 =
        some (0, "csi (3 bytes):\n".toList ++ text) ∧
      text.splitOn '\n' =
        ["  0000  48 69 0a".toList ++ List.replicate 41 ' ' ++ "Hi.".toList, []] ∧
      readDump text = [0x48, 0x69, 0x0a] := by
  have hpos : 1 ≤ ([0x48, 0x69, 0x0a] : List UInt8).length := by simp
  have hint : ([0x48, 0x69, 0x0a] : List UInt8).length < 2147483648 := by simp
  obtain ⟨text, hprints, hlines, -, hread⟩ :=
    hexDump_prints ⟨List.replicate 17 0xff, rfl⟩ (some "csi".toList) hpos hint
  refine ⟨text, hprints, ?_, hread⟩
  rw [hlines]
  rfl

end LocTag
