import Mathlib.Tactic.Lemma

/-! The machine instructions of opcodes.h: one constructor for each row, with the row's
operand-shape tag and binary encoding. Directive and pseudo-op rows carry the encoding -1,
which no instruction word selects, and are not opcodes of a stored instruction. -/
namespace Spimulator

/-- The operand-shape tags of opcode-types.h that machine instructions use. -/
inductive OpType
  | branchCoprocCond | branchRsLabel | rsImm | rtImm | rtRsImm | branchRsRtLabel | rtAddr | rs
  | rd | rsRt | rdRs | rtCopreg | rdRtShamt | rdRsRt | rdRtRs | fpFtAddr | fpFdFs | fpRtCopreg
  | fpCmpFsFt | fpFdFsFt | fpFdFrFsFt | fpMovc | movc | j | noarg
  deriving DecidableEq, Repr

inductive Opcode
  | absD | absPs | absS | add | addD | addPs | addS | addi | addiu | addu | alnvPs | and | andi
  | bc1f | bc1fl | bc1t | bc1tl | bc2f | bc2fl | bc2t | bc2tl | beq | beql | bgez | bgezal
  | bgezall | bgezl | bgtz | bgtzl | blez | blezl | bltz | bltzal | bltzall | bltzl | bne | bnel
  | brk | cEqD | cEqPs | cEqS | cFD | cFPs | cFS | cLeD | cLePs | cLeS | cLtD | cLtPs | cLtS
  | cNgeD | cNgePs | cNgeS | cNglD | cNglPs | cNglS | cNgleD | cNglePs | cNgleS | cNgtD | cNgtPs
  | cNgtS | cOleD | cOlePs | cOleS | cOltD | cOltPs | cOltS | cSeqD | cSeqPs | cSeqS | cSfD
  | cSfPs | cSfS | cUeqD | cUeqPs | cUeqS | cUleD | cUlePs | cUleS | cUltD | cUltPs | cUltS
  | cUnD | cUnPs | cUnS | cache | ceilLD | ceilLS | ceilWD | ceilWS | cfc0 | cfc1 | cfc2 | clo
  | clz | cop2 | ctc0 | ctc1 | ctc2 | cvtDL | cvtDS | cvtDW | cvtLD | cvtLS | cvtPsS | cvtSD
  | cvtSL | cvtSPl | cvtSPu | cvtSW | cvtWD | cvtWS | deret | di | div | divD | divS | divu | ehb
  | ei | eret | ext | floorLD | floorLS | floorWD | floorWS | ins | j | jal | jalr | jalrHb | jr
  | jrHb | lb | lbu | ldc1 | ldc2 | ldxc1 | lh | lhu | ll | lui | luxc1 | lw | lwc1 | lwc2 | lwl
  | lwr | lwxc1 | madd | maddD | maddPs | maddS | maddu | mfc0 | mfc1 | mfc2 | mfhc1 | mfhc2
  | mfhi | mflo | movD | movPs | movS | movf | movfD | movfPs | movfS | movn | movnD | movnPs
  | movnS | movt | movtD | movtPs | movtS | movz | movzD | movzPs | movzS | msub | msubD | msubPs
  | msubS | msubu | mtc0 | mtc1 | mtc2 | mthc1 | mthc2 | mthi | mtlo | mul | mulD | mulPs | mulS
  | mult | multu | negD | negPs | negS | nmaddD | nmaddPs | nmaddS | nmsubD | nmsubPs | nmsubS
  | nor | or | ori | pllPs | pluPs | pref | prefx | pulPs | puuPs | rdhwr | rdpgpr | recipD
  | recipS | rfe | rotr | rotrv | roundLD | roundLS | roundWD | roundWS | rsqrtD | rsqrtS | sb
  | sc | sdbbp | sdc1 | sdc2 | sdxc1 | seb | seh | sh | sll | sllv | slt | slti | sltiu | sltu
  | sqrtD | sqrtS | sra | srav | srl | srlv | ssnop | sub | subD | subPs | subS | subu | suxc1
  | sw | swc1 | swc2 | swl | swr | swxc1 | sync | synci | syscall | teq | teqi | tge | tgei
  | tgeiu | tgeu | tlbp | tlbr | tlbwi | tlbwr | tlt | tlti | tltiu | tltu | tne | tnei | truncLD
  | truncLS | truncWD | truncWS | wrpgpr | wsbh | xor | xori
  deriving DecidableEq, Repr

namespace Opcode

/-- The columns of opcodes.h used by the encoder and the decoder. -/
def row : Opcode → OpType × BitVec 32
  | .absD => (.fpFdFs, 0x46200005)
  | .absPs => (.fpFdFs, 0x46600005)
  | .absS => (.fpFdFs, 0x46000005)
  | .add => (.rdRsRt, 0x00000020)
  | .addD => (.fpFdFsFt, 0x46200000)
  | .addPs => (.fpFdFsFt, 0x46600000)
  | .addS => (.fpFdFsFt, 0x46000000)
  | .addi => (.rtRsImm, 0x20000000)
  | .addiu => (.rtRsImm, 0x24000000)
  | .addu => (.rdRsRt, 0x00000021)
  | .alnvPs => (.fpFdFrFsFt, 0x4c00001e)
  | .and => (.rdRsRt, 0x00000024)
  | .andi => (.rtRsImm, 0x30000000)
  | .bc1f => (.branchCoprocCond, 0x45000000)
  | .bc1fl => (.branchCoprocCond, 0x45020000)
  | .bc1t => (.branchCoprocCond, 0x45010000)
  | .bc1tl => (.branchCoprocCond, 0x45030000)
  | .bc2f => (.branchCoprocCond, 0x49000000)
  | .bc2fl => (.branchCoprocCond, 0x49020000)
  | .bc2t => (.branchCoprocCond, 0x49010000)
  | .bc2tl => (.branchCoprocCond, 0x49030000)
  | .beq => (.branchRsRtLabel, 0x10000000)
  | .beql => (.branchRsRtLabel, 0x50000000)
  | .bgez => (.branchRsLabel, 0x04010000)
  | .bgezal => (.branchRsLabel, 0x04110000)
  | .bgezall => (.branchRsLabel, 0x04130000)
  | .bgezl => (.branchRsLabel, 0x04030000)
  | .bgtz => (.branchRsLabel, 0x1c000000)
  | .bgtzl => (.branchRsLabel, 0x5c000000)
  | .blez => (.branchRsLabel, 0x18000000)
  | .blezl => (.branchRsLabel, 0x58000000)
  | .bltz => (.branchRsLabel, 0x04000000)
  | .bltzal => (.branchRsLabel, 0x04100000)
  | .bltzall => (.branchRsLabel, 0x04120000)
  | .bltzl => (.branchRsLabel, 0x04020000)
  | .bne => (.branchRsRtLabel, 0x14000000)
  | .bnel => (.branchRsRtLabel, 0x54000000)
  | .brk => (.noarg, 0x0000000d)
  | .cEqD => (.fpCmpFsFt, 0x46200032)
  | .cEqPs => (.fpCmpFsFt, 0x46600032)
  | .cEqS => (.fpCmpFsFt, 0x46000032)
  | .cFD => (.fpCmpFsFt, 0x46200030)
  | .cFPs => (.fpCmpFsFt, 0x46600030)
  | .cFS => (.fpCmpFsFt, 0x46000030)
  | .cLeD => (.fpCmpFsFt, 0x4620003e)
  | .cLePs => (.fpCmpFsFt, 0x4660003e)
  | .cLeS => (.fpCmpFsFt, 0x4600003e)
  | .cLtD => (.fpCmpFsFt, 0x4620003c)
  | .cLtPs => (.fpCmpFsFt, 0x4660003c)
  | .cLtS => (.fpCmpFsFt, 0x4600003c)
  | .cNgeD => (.fpCmpFsFt, 0x4620003d)
  | .cNgePs => (.fpCmpFsFt, 0x4660003d)
  | .cNgeS => (.fpCmpFsFt, 0x4600003d)
  | .cNglD => (.fpCmpFsFt, 0x4620003b)
  | .cNglPs => (.fpCmpFsFt, 0x4660003b)
  | .cNglS => (.fpCmpFsFt, 0x4600003b)
  | .cNgleD => (.fpCmpFsFt, 0x46200039)
  | .cNglePs => (.fpCmpFsFt, 0x46600039)
  | .cNgleS => (.fpCmpFsFt, 0x46000039)
  | .cNgtD => (.fpCmpFsFt, 0x4620003f)
  | .cNgtPs => (.fpCmpFsFt, 0x4660003f)
  | .cNgtS => (.fpCmpFsFt, 0x4600003f)
  | .cOleD => (.fpCmpFsFt, 0x46200036)
  | .cOlePs => (.fpCmpFsFt, 0x46600036)
  | .cOleS => (.fpCmpFsFt, 0x46000036)
  | .cOltD => (.fpCmpFsFt, 0x46200034)
  | .cOltPs => (.fpCmpFsFt, 0x46600034)
  | .cOltS => (.fpCmpFsFt, 0x46000034)
  | .cSeqD => (.fpCmpFsFt, 0x4620003a)
  | .cSeqPs => (.fpCmpFsFt, 0x4660003a)
  | .cSeqS => (.fpCmpFsFt, 0x4600003a)
  | .cSfD => (.fpCmpFsFt, 0x46200038)
  | .cSfPs => (.fpCmpFsFt, 0x46600038)
  | .cSfS => (.fpCmpFsFt, 0x46000038)
  | .cUeqD => (.fpCmpFsFt, 0x46200033)
  | .cUeqPs => (.fpCmpFsFt, 0x46600033)
  | .cUeqS => (.fpCmpFsFt, 0x46000033)
  | .cUleD => (.fpCmpFsFt, 0x46200037)
  | .cUlePs => (.fpCmpFsFt, 0x46600037)
  | .cUleS => (.fpCmpFsFt, 0x46000037)
  | .cUltD => (.fpCmpFsFt, 0x46200035)
  | .cUltPs => (.fpCmpFsFt, 0x46600035)
  | .cUltS => (.fpCmpFsFt, 0x46000035)
  | .cUnD => (.fpCmpFsFt, 0x46200031)
  | .cUnPs => (.fpCmpFsFt, 0x46600031)
  | .cUnS => (.fpCmpFsFt, 0x46000031)
  | .cache => (.rtRsImm, 0xbc000000)
  | .ceilLD => (.fpFdFs, 0x4620000a)
  | .ceilLS => (.fpFdFs, 0x4600000a)
  | .ceilWD => (.fpFdFs, 0x4620000e)
  | .ceilWS => (.fpFdFs, 0x4600000e)
  | .cfc0 => (.fpRtCopreg, 0x40400000)
  | .cfc1 => (.fpRtCopreg, 0x44400000)
  | .cfc2 => (.fpRtCopreg, 0x48400000)
  | .clo => (.rdRsRt, 0x70000021)
  | .clz => (.rdRsRt, 0x70000020)
  | .cop2 => (.j, 0x4a000000)
  | .ctc0 => (.fpRtCopreg, 0x40c00000)
  | .ctc1 => (.fpRtCopreg, 0x44c00000)
  | .ctc2 => (.fpRtCopreg, 0x48c00000)
  | .cvtDL => (.fpFdFs, 0x46b00021)
  | .cvtDS => (.fpFdFs, 0x46000021)
  | .cvtDW => (.fpFdFs, 0x46200021)
  | .cvtLD => (.fpFdFs, 0x46200025)
  | .cvtLS => (.fpFdFs, 0x46000025)
  | .cvtPsS => (.fpFdFs, 0x46000026)
  | .cvtSD => (.fpFdFs, 0x46200020)
  | .cvtSL => (.fpFdFs, 0x46b00020)
  | .cvtSPl => (.fpFdFs, 0x46c00024)
  | .cvtSPu => (.fpFdFs, 0x46c00020)
  | .cvtSW => (.fpFdFs, 0x46800020)
  | .cvtWD => (.fpFdFs, 0x46200024)
  | .cvtWS => (.fpFdFs, 0x46000024)
  | .deret => (.noarg, 0x4200001f)
  | .di => (.rtImm, 0x41606000)
  | .div => (.rsRt, 0x0000001a)
  | .divD => (.fpFdFsFt, 0x46200003)
  | .divS => (.fpFdFsFt, 0x46000003)
  | .divu => (.rsRt, 0x0000001b)
  | .ehb => (.noarg, 0x000000c0)
  | .ei => (.rtImm, 0x41606020)
  | .eret => (.noarg, 0x42000018)
  | .ext => (.fpFdFs, 0x7c000000)
  | .floorLD => (.fpFdFs, 0x4620000b)
  | .floorLS => (.fpFdFs, 0x4600000b)
  | .floorWD => (.fpFdFs, 0x4620000f)
  | .floorWS => (.fpFdFs, 0x4600000f)
  | .ins => (.fpFdFs, 0x7c000004)
  | .j => (.j, 0x08000000)
  | .jal => (.j, 0x0c000000)
  | .jalr => (.rdRs, 0x00000009)
  | .jalrHb => (.rdRs, 0x00000409)
  | .jr => (.rs, 0x00000008)
  | .jrHb => (.rs, 0x00000408)
  | .lb => (.rtAddr, 0x80000000)
  | .lbu => (.rtAddr, 0x90000000)
  | .ldc1 => (.fpFtAddr, 0xd4000000)
  | .ldc2 => (.rtAddr, 0xd8000000)
  | .ldxc1 => (.fpFdFsFt, 0x4c000001)
  | .lh => (.rtAddr, 0x84000000)
  | .lhu => (.rtAddr, 0x94000000)
  | .ll => (.rtAddr, 0xc0000000)
  | .lui => (.rtImm, 0x3c000000)
  | .luxc1 => (.fpFdFsFt, 0x4c000005)
  | .lw => (.rtAddr, 0x8c000000)
  | .lwc1 => (.fpFtAddr, 0xc4000000)
  | .lwc2 => (.rtAddr, 0xc8000000)
  | .lwl => (.rtAddr, 0x88000000)
  | .lwr => (.rtAddr, 0x98000000)
  | .lwxc1 => (.fpFdFsFt, 0x4c000000)
  | .madd => (.rsRt, 0x70000000)
  | .maddD => (.fpFdFrFsFt, 0x4c000001)
  | .maddPs => (.fpFdFrFsFt, 0x4c000006)
  | .maddS => (.fpFdFrFsFt, 0x4c000000)
  | .maddu => (.rsRt, 0x70000001)
  | .mfc0 => (.rtCopreg, 0x40000000)
  | .mfc1 => (.fpRtCopreg, 0x44000000)
  | .mfc2 => (.rtCopreg, 0x48000000)
  | .mfhc1 => (.fpRtCopreg, 0x44600000)
  | .mfhc2 => (.rtCopreg, 0x48600000)
  | .mfhi => (.rd, 0x00000010)
  | .mflo => (.rd, 0x00000012)
  | .movD => (.fpFdFs, 0x46200006)
  | .movPs => (.fpFdFs, 0x46c00006)
  | .movS => (.fpFdFs, 0x46000006)
  | .movf => (.movc, 0x00000001)
  | .movfD => (.fpMovc, 0x46200011)
  | .movfPs => (.fpMovc, 0x46c00011)
  | .movfS => (.fpMovc, 0x46000011)
  | .movn => (.rdRsRt, 0x0000000b)
  | .movnD => (.fpMovc, 0x46200013)
  | .movnPs => (.fpMovc, 0x46c00013)
  | .movnS => (.fpMovc, 0x46000013)
  | .movt => (.movc, 0x00010001)
  | .movtD => (.fpMovc, 0x46210011)
  | .movtPs => (.fpMovc, 0x46c10011)
  | .movtS => (.fpMovc, 0x46010011)
  | .movz => (.rdRsRt, 0x0000000a)
  | .movzD => (.fpMovc, 0x46200012)
  | .movzPs => (.fpMovc, 0x46c00012)
  | .movzS => (.fpMovc, 0x46000012)
  | .msub => (.rsRt, 0x70000004)
  | .msubD => (.fpFdFrFsFt, 0x4c000021)
  | .msubPs => (.fpFdFrFsFt, 0x4c000026)
  | .msubS => (.fpFdFrFsFt, 0x4c000020)
  | .msubu => (.rsRt, 0x70000005)
  | .mtc0 => (.rtCopreg, 0x40800000)
  | .mtc1 => (.fpRtCopreg, 0x44800000)
  | .mtc2 => (.rtCopreg, 0x48800000)
  | .mthc1 => (.fpRtCopreg, 0x44e00000)
  | .mthc2 => (.rtCopreg, 0x48e00000)
  | .mthi => (.rs, 0x00000011)
  | .mtlo => (.rs, 0x00000013)
  | .mul => (.rdRsRt, 0x70000002)
  | .mulD => (.fpFdFsFt, 0x46200002)
  | .mulPs => (.fpFdFsFt, 0x46c00002)
  | .mulS => (.fpFdFsFt, 0x46000002)
  | .mult => (.rsRt, 0x00000018)
  | .multu => (.rsRt, 0x00000019)
  | .negD => (.fpFdFs, 0x46200007)
  | .negPs => (.fpFdFs, 0x46c00007)
  | .negS => (.fpFdFs, 0x46000007)
  | .nmaddD => (.fpFdFrFsFt, 0x4c000031)
  | .nmaddPs => (.fpFdFrFsFt, 0x4c000036)
  | .nmaddS => (.fpFdFrFsFt, 0x4c000030)
  | .nmsubD => (.fpFdFrFsFt, 0x4c000039)
  | .nmsubPs => (.fpFdFrFsFt, 0x4c00003e)
  | .nmsubS => (.fpFdFrFsFt, 0x4c000038)
  | .nor => (.rdRsRt, 0x00000027)
  | .or => (.rdRsRt, 0x00000025)
  | .ori => (.rtRsImm, 0x34000000)
  | .pllPs => (.fpFdFsFt, 0x46c0002c)
  | .pluPs => (.fpFdFsFt, 0x46c0002d)
  | .pref => (.rtRsImm, 0xcc000000)
  | .prefx => (.rsRt, 0x4600000f)
  | .pulPs => (.fpFdFsFt, 0x46c0002e)
  | .puuPs => (.fpFdFsFt, 0x46c0002f)
  | .rdhwr => (.rdRsRt, 0x7c00003b)
  | .rdpgpr => (.rtCopreg, 0x41400000)
  | .recipD => (.fpFdFs, 0x46200015)
  | .recipS => (.fpFdFs, 0x46000015)
  | .rfe => (.noarg, 0x42000010)
  | .rotr => (.rdRtShamt, 0x00200002)
  | .rotrv => (.rdRtShamt, 0x00200003)
  | .roundLD => (.fpFdFs, 0x46200008)
  | .roundLS => (.fpFdFs, 0x46000008)
  | .roundWD => (.fpFdFs, 0x4620000c)
  | .roundWS => (.fpFdFs, 0x4600000c)
  | .rsqrtD => (.fpFdFs, 0x46200016)
  | .rsqrtS => (.fpFdFs, 0x46000016)
  | .sb => (.rtAddr, 0xa0000000)
  | .sc => (.rtAddr, 0xe0000000)
  | .sdbbp => (.noarg, 0x7000003f)
  | .sdc1 => (.fpFtAddr, 0xf4000000)
  | .sdc2 => (.rtAddr, 0xf8000000)
  | .sdxc1 => (.fpFdFsFt, 0x46000009)
  | .seb => (.rtCopreg, 0x7c000420)
  | .seh => (.rtCopreg, 0x7c000620)
  | .sh => (.rtAddr, 0xa4000000)
  | .sll => (.rdRtShamt, 0x00000000)
  | .sllv => (.rdRtRs, 0x00000004)
  | .slt => (.rdRsRt, 0x0000002a)
  | .slti => (.rtRsImm, 0x28000000)
  | .sltiu => (.rtRsImm, 0x2c000000)
  | .sltu => (.rdRsRt, 0x0000002b)
  | .sqrtD => (.fpFdFs, 0x46200004)
  | .sqrtS => (.fpFdFs, 0x46000004)
  | .sra => (.rdRtShamt, 0x00000003)
  | .srav => (.rdRtRs, 0x00000007)
  | .srl => (.rdRtShamt, 0x00000002)
  | .srlv => (.rdRtRs, 0x00000006)
  | .ssnop => (.rdRtShamt, 0x00000040)
  | .sub => (.rdRsRt, 0x00000022)
  | .subD => (.fpFdFsFt, 0x46200001)
  | .subPs => (.fpFdFsFt, 0x46600001)
  | .subS => (.fpFdFsFt, 0x46000001)
  | .subu => (.rdRsRt, 0x00000023)
  | .suxc1 => (.fpFdFsFt, 0x4600000d)
  | .sw => (.rtAddr, 0xac000000)
  | .swc1 => (.fpFtAddr, 0xe4000000)
  | .swc2 => (.rtAddr, 0xe8000000)
  | .swl => (.rtAddr, 0xa8000000)
  | .swr => (.rtAddr, 0xb8000000)
  | .swxc1 => (.fpFdFsFt, 0x46000008)
  | .sync => (.noarg, 0x0000000f)
  | .synci => (.rtRsImm, 0x04140000)
  | .syscall => (.noarg, 0x0000000c)
  | .teq => (.rsRt, 0x00000034)
  | .teqi => (.rsImm, 0x040c0000)
  | .tge => (.rsRt, 0x00000030)
  | .tgei => (.rsImm, 0x04080000)
  | .tgeiu => (.rsImm, 0x04090000)
  | .tgeu => (.rsRt, 0x00000031)
  | .tlbp => (.noarg, 0x42000008)
  | .tlbr => (.noarg, 0x42000001)
  | .tlbwi => (.noarg, 0x42000002)
  | .tlbwr => (.noarg, 0x42000006)
  | .tlt => (.rsRt, 0x00000032)
  | .tlti => (.rsImm, 0x040a0000)
  | .tltiu => (.rsImm, 0x040b0000)
  | .tltu => (.rsRt, 0x00000033)
  | .tne => (.rsRt, 0x00000036)
  | .tnei => (.rsImm, 0x040e0000)
  | .truncLD => (.fpFdFs, 0x46200009)
  | .truncLS => (.fpFdFs, 0x46000009)
  | .truncWD => (.fpFdFs, 0x4620000d)
  | .truncWS => (.fpFdFs, 0x4600000d)
  | .wrpgpr => (.rtCopreg, 0x41c00000)
  | .wsbh => (.rtCopreg, 0x7c0000a0)
  | .xor => (.rdRsRt, 0x00000026)
  | .xori => (.rtRsImm, 0x38000000)

/-- The third column: name_tbl's value2. -/
def opType (op : Opcode) : OpType := op.row.1

/-- The fourth column: i_opcode_tbl's value2, and a_opcode_tbl's key. -/
def aOpcode (op : Opcode) : BitVec 32 := op.row.2

/-- The opcodes with a case of their own in run_spim; the others reach its fatal_error. -/
def executed : Opcode → Bool
  | .absPs | .addPs | .alnvPs | .cEqPs | .cFPs | .cLePs | .cLtPs | .cNgePs | .cNglPs | .cNglePs
  | .cNgtPs | .cOlePs | .cOltPs | .cSeqPs | .cSfPs | .cUeqPs | .cUlePs | .cUltPs | .cUnPs
  | .ceilLD | .ceilLS | .cvtDL | .cvtLD | .cvtLS | .cvtPsS | .cvtSL | .cvtSPl | .cvtSPu | .deret
  | .di | .ehb | .ei | .ext | .floorLD | .floorLS | .ins | .jalrHb | .jrHb | .ldxc1 | .luxc1
  | .lwxc1 | .maddD | .maddPs | .maddS | .mfhc1 | .mfhc2 | .movPs | .movfPs | .movnPs | .movtPs
  | .movzPs | .msubD | .msubPs | .msubS | .mthc1 | .mthc2 | .mulPs | .negPs | .nmaddD | .nmaddPs
  | .nmaddS | .nmsubD | .nmsubPs | .nmsubS | .pllPs | .pluPs | .prefx | .pulPs | .puuPs | .rdhwr
  | .rdpgpr | .recipD | .recipS | .rotr | .rotrv | .roundLD | .roundLS | .rsqrtD | .rsqrtS
  | .sdbbp | .sdxc1 | .seb | .seh | .ssnop | .subPs | .suxc1 | .swxc1 | .synci | .truncLD
  | .truncLS | .wrpgpr | .wsbh => false
  | _ => true

/-- All rows, in the order of opcodes.h. -/
def all : List Opcode := [
  .absD, .absPs, .absS, .add, .addD, .addPs, .addS, .addi, .addiu, .addu, .alnvPs, .and, .andi,
  .bc1f, .bc1fl, .bc1t, .bc1tl, .bc2f, .bc2fl, .bc2t, .bc2tl, .beq, .beql, .bgez, .bgezal,
  .bgezall, .bgezl, .bgtz, .bgtzl, .blez, .blezl, .bltz, .bltzal, .bltzall, .bltzl, .bne, .bnel,
  .brk, .cEqD, .cEqPs, .cEqS, .cFD, .cFPs, .cFS, .cLeD, .cLePs, .cLeS, .cLtD, .cLtPs, .cLtS,
  .cNgeD, .cNgePs, .cNgeS, .cNglD, .cNglPs, .cNglS, .cNgleD, .cNglePs, .cNgleS, .cNgtD, .cNgtPs,
  .cNgtS, .cOleD, .cOlePs, .cOleS, .cOltD, .cOltPs, .cOltS, .cSeqD, .cSeqPs, .cSeqS, .cSfD,
  .cSfPs, .cSfS, .cUeqD, .cUeqPs, .cUeqS, .cUleD, .cUlePs, .cUleS, .cUltD, .cUltPs, .cUltS,
  .cUnD, .cUnPs, .cUnS, .cache, .ceilLD, .ceilLS, .ceilWD, .ceilWS, .cfc0, .cfc1, .cfc2, .clo,
  .clz, .cop2, .ctc0, .ctc1, .ctc2, .cvtDL, .cvtDS, .cvtDW, .cvtLD, .cvtLS, .cvtPsS, .cvtSD,
  .cvtSL, .cvtSPl, .cvtSPu, .cvtSW, .cvtWD, .cvtWS, .deret, .di, .div, .divD, .divS, .divu, .ehb,
  .ei, .eret, .ext, .floorLD, .floorLS, .floorWD, .floorWS, .ins, .j, .jal, .jalr, .jalrHb, .jr,
  .jrHb, .lb, .lbu, .ldc1, .ldc2, .ldxc1, .lh, .lhu, .ll, .lui, .luxc1, .lw, .lwc1, .lwc2, .lwl,
  .lwr, .lwxc1, .madd, .maddD, .maddPs, .maddS, .maddu, .mfc0, .mfc1, .mfc2, .mfhc1, .mfhc2,
  .mfhi, .mflo, .movD, .movPs, .movS, .movf, .movfD, .movfPs, .movfS, .movn, .movnD, .movnPs,
  .movnS, .movt, .movtD, .movtPs, .movtS, .movz, .movzD, .movzPs, .movzS, .msub, .msubD, .msubPs,
  .msubS, .msubu, .mtc0, .mtc1, .mtc2, .mthc1, .mthc2, .mthi, .mtlo, .mul, .mulD, .mulPs, .mulS,
  .mult, .multu, .negD, .negPs, .negS, .nmaddD, .nmaddPs, .nmaddS, .nmsubD, .nmsubPs, .nmsubS,
  .nor, .or, .ori, .pllPs, .pluPs, .pref, .prefx, .pulPs, .puuPs, .rdhwr, .rdpgpr, .recipD,
  .recipS, .rfe, .rotr, .rotrv, .roundLD, .roundLS, .roundWD, .roundWS, .rsqrtD, .rsqrtS, .sb,
  .sc, .sdbbp, .sdc1, .sdc2, .sdxc1, .seb, .seh, .sh, .sll, .sllv, .slt, .slti, .sltiu, .sltu,
  .sqrtD, .sqrtS, .sra, .srav, .srl, .srlv, .ssnop, .sub, .subD, .subPs, .subS, .subu, .suxc1,
  .sw, .swc1, .swc2, .swl, .swr, .swxc1, .sync, .synci, .syscall, .teq, .teqi, .tge, .tgei,
  .tgeiu, .tgeu, .tlbp, .tlbr, .tlbwi, .tlbwr, .tlt, .tlti, .tltiu, .tltu, .tne, .tnei, .truncLD,
  .truncLS, .truncWD, .truncWS, .wrpgpr, .wsbh, .xor, .xori]

lemma getElem_all (op : Opcode) : all[op.ctorIdx]? = some op := by cases op <;> rfl

theorem mem_all (op : Opcode) : op ∈ all := List.mem_of_getElem? (getElem_all op)

end Opcode
end Spimulator
