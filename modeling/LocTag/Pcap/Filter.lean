import LocTag.Lib.Machine
import LocTag.Lib.Words
import Mathlib.Logic.Function.Basic

/-!
# The filter machine

`bpf_filter_with_aux_data` of libpcap runs the program that `pcap_compile` makes of the filter of
`csiutil` over a packet: an accumulator, an index register, sixteen words of scratch memory, and
jumps.

The machine here has a result for everything the code has no meaning for, so that the other modules
can say what a program does not do.
-/

namespace LocTag

open Lib Lib.Fetch

/-! ### `bpf.h` -/

def BPF_LD : BitVec 16 := 0x00
def BPF_LDX : BitVec 16 := 0x01
def BPF_ST : BitVec 16 := 0x02
def BPF_STX : BitVec 16 := 0x03
def BPF_ALU : BitVec 16 := 0x04
def BPF_JMP : BitVec 16 := 0x05
def BPF_RET : BitVec 16 := 0x06
def BPF_MISC : BitVec 16 := 0x07

def BPF_W : BitVec 16 := 0x00
def BPF_H : BitVec 16 := 0x08
def BPF_B : BitVec 16 := 0x10

def BPF_IMM : BitVec 16 := 0x00
def BPF_ABS : BitVec 16 := 0x20
def BPF_IND : BitVec 16 := 0x40
def BPF_MEM : BitVec 16 := 0x60
def BPF_LEN : BitVec 16 := 0x80
def BPF_MSH : BitVec 16 := 0xa0

def BPF_ADD : BitVec 16 := 0x00
def BPF_SUB : BitVec 16 := 0x10
def BPF_MUL : BitVec 16 := 0x20
def BPF_DIV : BitVec 16 := 0x30
def BPF_OR : BitVec 16 := 0x40
def BPF_AND : BitVec 16 := 0x50
def BPF_LSH : BitVec 16 := 0x60
def BPF_RSH : BitVec 16 := 0x70
def BPF_NEG : BitVec 16 := 0x80
def BPF_MOD : BitVec 16 := 0x90
def BPF_XOR : BitVec 16 := 0xa0

def BPF_JA : BitVec 16 := 0x00
def BPF_JEQ : BitVec 16 := 0x10
def BPF_JGT : BitVec 16 := 0x20
def BPF_JGE : BitVec 16 := 0x30
def BPF_JSET : BitVec 16 := 0x40

def BPF_K : BitVec 16 := 0x00
def BPF_X : BitVec 16 := 0x08
def BPF_A : BitVec 16 := 0x10

def BPF_TAX : BitVec 16 := 0x00
def BPF_TXA : BitVec 16 := 0x80

def BPF_CLASS (code : BitVec 16) : BitVec 16 := code &&& 0x07
def BPF_MODE (code : BitVec 16) : BitVec 16 := code &&& 0xe0
def BPF_OP (code : BitVec 16) : BitVec 16 := code &&& 0xf0
def BPF_SRC (code : BitVec 16) : BitVec 16 := code &&& 0x08

def BPF_MEMWORDS : ℕ := 16

/-- `struct bpf_insn` -/
structure BpfInsn where
  code : BitVec 16
  jt : BitVec 8
  jf : BitVec 8
  k : BitVec 32
  deriving DecidableEq

/-- `struct bpf_aux_data` -/
structure BpfAuxData where
  vlanTagPresent : BitVec 16
  vlanTag : BitVec 16

/-! `<linux/filter.h>` -/

def SKF_AD_OFF : BitVec 32 := BitVec.ofInt 32 (-0x1000)
def SKF_AD_PROTOCOL : BitVec 32 := 0
def SKF_AD_PKTTYPE : BitVec 32 := 4
def SKF_AD_VLAN_TAG : BitVec 32 := 44
def SKF_AD_VLAN_TAG_PRESENT : BitVec 32 := 48

/-! ### The cases of the switch -/

inductive BpfSize where
  | W
  | H
  | B
  deriving DecidableEq

inductive BpfSrc where
  | K
  | X
  deriving DecidableEq

inductive BpfJump where
  | JGT
  | JGE
  | JEQ
  | JSET
  deriving DecidableEq

inductive BpfAlu where
  | ADD
  | SUB
  | MUL
  | DIV
  | MOD
  | AND
  | OR
  | XOR
  | LSH
  | RSH
  deriving DecidableEq

/-- The cases of `switch (pc->code)`. -/
inductive BpfCase where
  | retK
  | retA
  | ldAbs (size : BpfSize)
  | ldLen
  | ldxLen
  | ldInd (size : BpfSize)
  | ldxMsh
  | ldImm
  | ldxImm
  | ldMem
  | ldxMem
  | st
  | stx
  | ja
  | jump (op : BpfJump) (src : BpfSrc)
  | alu (op : BpfAlu) (src : BpfSrc)
  | neg
  | tax
  | txa
  deriving DecidableEq

def BpfSize.code : BpfSize → BitVec 16
  | .W => BPF_W
  | .H => BPF_H
  | .B => BPF_B

def BpfSrc.code : BpfSrc → BitVec 16
  | .K => BPF_K
  | .X => BPF_X

def BpfJump.code : BpfJump → BitVec 16
  | .JGT => BPF_JGT
  | .JGE => BPF_JGE
  | .JEQ => BPF_JEQ
  | .JSET => BPF_JSET

def BpfAlu.code : BpfAlu → BitVec 16
  | .ADD => BPF_ADD
  | .SUB => BPF_SUB
  | .MUL => BPF_MUL
  | .DIV => BPF_DIV
  | .MOD => BPF_MOD
  | .AND => BPF_AND
  | .OR => BPF_OR
  | .XOR => BPF_XOR
  | .LSH => BPF_LSH
  | .RSH => BPF_RSH

/-- The label of a case. -/
def BpfCase.code : BpfCase → BitVec 16
  | retK => BPF_RET ||| BPF_K
  | retA => BPF_RET ||| BPF_A
  | ldAbs size => BPF_LD ||| size.code ||| BPF_ABS
  | ldLen => BPF_LD ||| BPF_W ||| BPF_LEN
  | ldxLen => BPF_LDX ||| BPF_W ||| BPF_LEN
  | ldInd size => BPF_LD ||| size.code ||| BPF_IND
  | ldxMsh => BPF_LDX ||| BPF_MSH ||| BPF_B
  | ldImm => BPF_LD ||| BPF_IMM
  | ldxImm => BPF_LDX ||| BPF_IMM
  | ldMem => BPF_LD ||| BPF_MEM
  | ldxMem => BPF_LDX ||| BPF_MEM
  | st => BPF_ST
  | stx => BPF_STX
  | ja => BPF_JMP ||| BPF_JA
  | jump op src => BPF_JMP ||| op.code ||| src.code
  | alu op src => BPF_ALU ||| op.code ||| src.code
  | neg => BPF_ALU ||| BPF_NEG
  | tax => BPF_MISC ||| BPF_TAX
  | txa => BPF_MISC ||| BPF_TXA

def BpfCase.all : List BpfCase :=
  [retK, retA, ldAbs .W, ldAbs .H, ldAbs .B, ldLen, ldxLen, ldInd .W, ldInd .H, ldInd .B, ldxMsh,
    ldImm, ldxImm, ldMem, ldxMem, st, stx, ja] ++
  ([.JGT, .JGE, .JEQ, .JSET].flatMap fun op => [jump op .K, jump op .X]) ++
  ([.ADD, .SUB, .MUL, .DIV, .MOD, .AND, .OR, .XOR, .LSH, .RSH].flatMap fun op =>
    [alu op .X, alu op .K]) ++ [neg, tax, txa]

/-- The case of a code, `none` for the `default`. -/
def bpfCase (code : BitVec 16) : Option BpfCase := BpfCase.all.find? fun c => c.code = code

/-! ### The machine -/

/-- What the code has no meaning for. -/
inductive BpfUndefined where
  | outsideProgram
  | outsidePacket
  | outsideMem
  | uninitialised
  | divisionByZero
  | shift
  deriving DecidableEq

/-- How a run ends: with a value, in `abort()`, or without a meaning. -/
inductive BpfEnd where
  | ret (value : BitVec 32)
  | aborted
  | undefined (why : BpfUndefined)
  deriving DecidableEq

/-- The arguments but the program: a packet of which `buflen` bytes are there. -/
structure BpfPacket where
  p : Mem
  wirelen : BitVec 32
  buflen : BitVec 32
  auxData : Option BpfAuxData

/-- The registers and `mem`, as far as it has been stored to. -/
structure BpfState where
  pc : ℤ := 0
  A : BitVec 32 := 0
  X : BitVec 32 := 0
  mem : ℕ → Option (BitVec 32) := fun _ => none

namespace BpfState

variable (s : BpfState)

def jumpBy (offset : ℤ) : BpfState := { s with pc := s.pc + 1 + offset }
def setA (A : BitVec 32) : BpfState := { s with pc := s.pc + 1, A }
def setX (X : BitVec 32) : BpfState := { s with pc := s.pc + 1, X }

def source (insn : BpfInsn) : BpfSrc → BitVec 32
  | .K => insn.k
  | .X => s.X

/-- `mem[k]` -/
def load (k : BitVec 32) : Except BpfEnd (BitVec 32) :=
  if k.toNat < BPF_MEMWORDS then
    match s.mem k.toNat with
    | some value => .ok value
    | none => .error (.undefined .uninitialised)
  else .error (.undefined .outsideMem)

/-- `mem[k] = value` -/
def store (k value : BitVec 32) : Except BpfEnd BpfState :=
  if k.toNat < BPF_MEMWORDS then
    .ok { s with pc := s.pc + 1, mem := Function.update s.mem k.toNat (some value) }
  else .error (.undefined .outsideMem)

end BpfState

def EXTRACT_SHORT (k : ℕ) : Fetch (BitVec 32) := do
  let b0 ← u8 k
  let b1 ← u8 (k + 1)
  pure (BitVec.ofNat 32 (b0.toNat * 256 + b1.toNat))

def EXTRACT_LONG (k : ℕ) : Fetch (BitVec 32) := do
  let b0 ← u8 k
  let b1 ← u8 (k + 1)
  let b2 ← u8 (k + 2)
  let b3 ← u8 (k + 3)
  pure (BitVec.ofNat 32 (b0.toNat * 16777216 + b1.toNat * 65536 + b2.toNat * 256 + b3.toNat))

/-- `p[k]` -/
def packetByte (k : ℕ) : Fetch (BitVec 32) := do
  let b ← u8 k
  pure (BitVec.ofNat 32 b.toNat)

namespace BpfPacket

variable (pk : BpfPacket)

/-- What is read from the packet. -/
def fetch (f : Fetch (BitVec 32)) : Except BpfEnd (BitVec 32) :=
  match run pk.p f with
  | some value => .ok value
  | none => .error (.undefined .outsidePacket)

/-- A tag of `aux_data`. -/
def aux (tag : BpfAuxData → BitVec 16) : Except BpfEnd (BitVec 32) :=
  match pk.auxData with
  | some auxData => .ok ((tag auxData).setWidth 32)
  | none => .error (.ret 0)

/-- The loads `BPF_ABS`. -/
def loadAbs (k : BitVec 32) : BpfSize → Except BpfEnd (BitVec 32)
  | .W => if pk.buflen < k ∨ pk.buflen - k < 4 then .error (.ret 0)
    else pk.fetch (EXTRACT_LONG k.toNat)
  | .H => if pk.buflen < k ∨ pk.buflen - k < 2 then .error (.ret 0)
    else pk.fetch (EXTRACT_SHORT k.toNat)
  | .B => if k = SKF_AD_OFF + SKF_AD_VLAN_TAG then pk.aux BpfAuxData.vlanTag
    else if k = SKF_AD_OFF + SKF_AD_VLAN_TAG_PRESENT then pk.aux BpfAuxData.vlanTagPresent
    else if pk.buflen ≤ k then .error (.ret 0)
    else pk.fetch (packetByte k.toNat)

/-- The loads `BPF_IND`, of `k = X + pc->k`. -/
def loadInd (X pck : BitVec 32) : BpfSize → Except BpfEnd (BitVec 32)
  | .W =>
    let k := X + pck
    if pk.buflen < pck ∨ pk.buflen - pck < X ∨ pk.buflen - k < 4 then .error (.ret 0)
    else pk.fetch (EXTRACT_LONG k.toNat)
  | .H =>
    let k := X + pck
    if pk.buflen < X ∨ pk.buflen - X < pck ∨ pk.buflen - k < 2 then .error (.ret 0)
    else pk.fetch (EXTRACT_SHORT k.toNat)
  | .B =>
    let k := X + pck
    if pk.buflen ≤ pck ∨ pk.buflen - pck ≤ X then .error (.ret 0)
    else pk.fetch (packetByte k.toNat)

/-- `BPF_LDX|BPF_MSH|BPF_B`: four times the low half of a byte. -/
def loadMsh (k : BitVec 32) : Except BpfEnd (BitVec 32) :=
  if pk.buflen ≤ k then .error (.ret 0)
  else pk.fetch do
    let b ← packetByte k.toNat
    pure ((b &&& 0xf) <<< 2)

end BpfPacket

def BpfJump.test (A b : BitVec 32) : BpfJump → Bool
  | .JGT => b < A
  | .JGE => b ≤ A
  | .JEQ => A = b
  | .JSET => A &&& b ≠ 0

/-- `A op= b`; only a register is compared with `0` before a division. -/
def BpfAlu.apply (src : BpfSrc) (A b : BitVec 32) : BpfAlu → Except BpfEnd (BitVec 32)
  | .ADD => .ok (A + b)
  | .SUB => .ok (A - b)
  | .MUL => .ok (A * b)
  | .DIV => if b = 0 then .error (if src = .X then .ret 0 else .undefined .divisionByZero)
    else .ok (A / b)
  | .MOD => if b = 0 then .error (if src = .X then .ret 0 else .undefined .divisionByZero)
    else .ok (A % b)
  | .AND => .ok (A &&& b)
  | .OR => .ok (A ||| b)
  | .XOR => .ok (A ^^^ b)
  | .LSH => if b.toNat < 32 then .ok (A <<< b) else .error (.undefined .shift)
  | .RSH => if b.toNat < 32 then .ok (A >>> b) else .error (.undefined .shift)

/-- A round of the loop, at an instruction in one of the cases. -/
def BpfCase.exec (pk : BpfPacket) (insn : BpfInsn) (s : BpfState) :
    BpfCase → Except BpfEnd BpfState
  | retK => .error (.ret insn.k)
  | retA => .error (.ret s.A)
  | ldAbs size => (pk.loadAbs insn.k size).map s.setA
  | ldLen => .ok (s.setA pk.wirelen)
  | ldxLen => .ok (s.setX pk.wirelen)
  | ldInd size => (pk.loadInd s.X insn.k size).map s.setA
  | ldxMsh => (pk.loadMsh insn.k).map s.setX
  | ldImm => .ok (s.setA insn.k)
  | ldxImm => .ok (s.setX insn.k)
  | ldMem => (s.load insn.k).map s.setA
  | ldxMem => (s.load insn.k).map s.setX
  | st => s.store insn.k s.A
  | stx => s.store insn.k s.X
  | ja => .ok (s.jumpBy insn.k.toInt)
  | jump op src =>
    .ok (s.jumpBy (if op.test s.A (s.source insn src) then insn.jt.toNat else insn.jf.toNat))
  | alu op src => (op.apply src s.A (s.source insn src)).map s.setA
  | neg => .ok (s.setA (-s.A))
  | tax => .ok (s.setX s.A)
  | txa => .ok (s.setA s.X)

/-- The body of the loop. -/
def bpfExec (pk : BpfPacket) (insn : BpfInsn) (s : BpfState) : Except BpfEnd BpfState :=
  match bpfCase insn.code with
  | some c => c.exec pk insn s
  | none => .error .aborted

/-- The instruction at `pc`. -/
def bpfInsnAt (prog : List BpfInsn) (pc : ℤ) : Option BpfInsn :=
  if 0 ≤ pc then prog[pc.toNat]? else none

def bpfStep (prog : List BpfInsn) (pk : BpfPacket) (s : BpfState) : Except BpfEnd BpfState :=
  match bpfInsnAt prog s.pc with
  | some insn => bpfExec pk insn s
  | none => .error (.undefined .outsideProgram)

/-- `bpf_filter_with_aux_data`, with fuel; no filter means accept all. -/
def bpfFilterWithAuxData (fuel : ℕ) (pc : Option (List BpfInsn)) (pk : BpfPacket) :
    Option BpfEnd :=
  match pc with
  | none => some (.ret (BitVec.ofInt 32 (-1)))
  | some prog => runFor (bpfStep prog pk) fuel {}

/-- A run of a program over a packet ends so. -/
def BpfEnds (prog : List BpfInsn) (pk : BpfPacket) (e : BpfEnd) : Prop :=
  Ends (bpfStep prog pk) {} e

/-! ### Cases -/

theorem bpfCase_code (c : BpfCase) : bpfCase c.code = some c := by
  cases c with
  | ldAbs size => cases size <;> rfl
  | ldInd size => cases size <;> rfl
  | jump op src => cases op <;> cases src <;> rfl
  | alu op src => cases op <;> cases src <;> rfl
  | _ => rfl

theorem bpfCase_eq_some_iff {code : BitVec 16} {c : BpfCase} : bpfCase code = some c ↔
    code = c.code := by
  constructor
  · intro h
    have hlabel := List.find?_some (p := fun c : BpfCase => decide (c.code = code)) h
    exact (of_decide_eq_true hlabel).symm
  · rintro rfl
    exact bpfCase_code c

end LocTag
