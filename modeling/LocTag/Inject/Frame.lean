import LocTag.Inject.Injectutil

/-!
# Frames that are cut

`main` of `injectutil.c` with its buffer and the return values of `readFile`: the frame is read into
what is left of `t_buffer` behind the header, and a file that is longer looks like one that just
fits.  `wholeOrError_iff` says which files are injected whole.
-/

namespace LocTag

open Lib

/-! ### `main` -/

/-- What is at a path: no file, one that cannot be opened or read, or one with a content. -/
inductive FrameFile where
  | missing
  | unreadable (length : ℕ)
  | readable (content : List UInt8)

/-- The content, where it can be read. -/
def FrameFile.content? : FrameFile → Option (List UInt8)
  | .readable content => some content
  | _ => none

/-- `readFile(buf + p, max_size, ..)`: what it returns, and the buffer afterwards; `read` gives as
much of the file as it is asked for. -/
def readFileInto (buf : List UInt8) (p maxSize : ℕ) : FrameFile → ℤ × List UInt8
  | .missing => (-1, buf)
  | .unreadable _ => (-2, buf)
  | .readable content =>
    let got := content.take maxSize
    (got.length, overwrite buf p got)

/-- How `main` ends: in `exit`, or past its call of `write`. -/
inductive InjectEnd where
  | exit (status : ℤ)
  | write (tSocket : ℤ) (packet : List UInt8)
  deriving DecidableEq

/-- The packet written. -/
def InjectEnd.packet? : InjectEnd → Option (List UInt8)
  | .exit _ => none
  | .write _ packet => some packet

/-- `main` after `argp_parse`, for the socket it made and what was in its uninitialised buffer. -/
def injectMain (tSocket : ℤ) (tBuffer : List UInt8) (opts : InjectOpts) (file : FrameFile) :
    InjectEnd :=
  let hdr := opts.nexRt.bytes
  let tBuffer := overwrite tBuffer 0 hdr
  let p := hdr.length
  let (frameSize, tBuffer) := readFileInto tBuffer p (MAX_FRAME_SIZE - p) file
  if frameSize < 0 then .exit (-1) else .write tSocket (tBuffer.take (p + frameSize.toNat))

/-! ### What is written -/

section Main

variable {tSocket : ℤ} {tBuffer : List UInt8} {opts : InjectOpts}

theorem injectMain_missing : injectMain tSocket tBuffer opts .missing = .exit (-1) := rfl

theorem injectMain_unreadable {length : ℕ} :
    injectMain tSocket tBuffer opts (.unreadable length) = .exit (-1) := rfl

/-- **The header, and as much of the frame as there is room for.** -/
theorem injectMain_readable {content : List UInt8} :
    injectMain tSocket tBuffer opts (.readable content) =
      .write tSocket (opts.nexRt.bytes ++ content.take 4060) := by
  have hroom : MAX_FRAME_SIZE - opts.nexRt.bytes.length = 4060 := rfl
  have hstart : overwrite tBuffer 0 opts.nexRt.bytes =
      opts.nexRt.bytes ++ tBuffer.drop (0 + opts.nexRt.bytes.length) := rfl
  have hpacket := take_overwrite (overwrite tBuffer 0 opts.nexRt.bytes)
    (i := opts.nexRt.bytes.length) (content.take 4060) (by simp [hstart])
  rw [hstart, List.take_left] at hpacket
  simp only [injectMain, readFileInto, hroom, hstart]
  rw [if_neg (by omega), Int.toNat_natCast, hpacket]

/-- Nothing is stored past the end of the buffer. -/
theorem length_readFileInto (hbuf : tBuffer.length = MAX_FRAME_SIZE) (file : FrameFile) :
    (readFileInto (overwrite tBuffer 0 opts.nexRt.bytes) 36 (MAX_FRAME_SIZE - 36) file).2.length =
      MAX_FRAME_SIZE := by
  have hstart : (overwrite tBuffer 0 opts.nexRt.bytes).length = MAX_FRAME_SIZE := by
    rw [length_overwrite, hbuf]
    rw [length_bytes, hbuf]
    decide
  cases file with
  | missing => exact hstart
  | unreadable length => exact hstart
  | readable content =>
    rw [readFileInto, length_overwrite, hstart]
    rw [hstart, List.length_take, MAX_FRAME_SIZE]
    omega

/-- `injectutil` is `main` over the words of its command line. -/
theorem injectutil_eq_injectMain {files : List Char → FrameFile} {words : List (List Char)} :
    injectutil (fun path => (files path).content?) words =
      (argpParse {} words).bind fun opts =>
        (injectMain tSocket tBuffer opts (files opts.filepath)).packet? := by
  unfold injectutil
  congr 1
  funext opts
  cases hfile : files opts.filepath with
  | missing => simp [readFile, hfile, FrameFile.content?, injectMain_missing, InjectEnd.packet?]
  | unreadable length =>
    simp [readFile, hfile, FrameFile.content?, injectMain_unreadable, InjectEnd.packet?]
  | readable content =>
    simp [readFile, hfile, FrameFile.content?, injectMain_readable, InjectEnd.packet?, length_bytes,
      MAX_FRAME_SIZE]

end Main

/-- The header and the whole frame are written, or the program fails and writes nothing. -/
def WholeOrError (tSocket : ℤ) (opts : InjectOpts) (file : FrameFile) (e : InjectEnd) : Prop :=
  (∃ content, file = .readable content ∧ e = .write tSocket (opts.nexRt.bytes ++ content)) ∨
    ∃ status ≠ 0, e = .exit status

theorem wholeOrError_readable {tSocket : ℤ} {tBuffer : List UInt8} {opts : InjectOpts}
    {content : List UInt8} :
    WholeOrError tSocket opts (.readable content)
        (injectMain tSocket tBuffer opts (.readable content)) ↔ content.length ≤ 4060 := by
  rw [injectMain_readable]
  constructor
  · rintro (⟨whole, hwhole, hpacket⟩ | ⟨status, -, hexit⟩)
    · cases hwhole
      rw [InjectEnd.write.injEq, List.append_cancel_left_eq, List.take_eq_self_iff] at hpacket
      exact hpacket.2
    · cases hexit
  · intro hlen
    refine .inl ⟨content, rfl, ?_⟩
    rw [List.take_of_length_le hlen]

end LocTag
