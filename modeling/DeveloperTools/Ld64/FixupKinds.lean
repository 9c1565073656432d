import Mathlib.Data.List.Basic

/-!
The kinds of fixup (`ld::Fixup::Kind`), and which of them take the address of a target when
the output is written.
-/

namespace DeveloperTools.Ld64

inductive Kind
  | none | noneFollowOn
  | noneGroupSubordinate | noneGroupSubordinateFDE | noneGroupSubordinateLSDA
  | noneGroupSubordinatePersonality | setTargetAddress | subtractTargetAddress | addAddend
  | subtractAddend | setTargetImageOffset | setTargetSectionOffset | setTargetTLVTemplateOffset
  | store8 | storeLittleEndian16 | storeLittleEndianLow24of32 | storeLittleEndian32
  | storeLittleEndian64 | storeBigEndian16 | storeBigEndianLow24of32 | storeBigEndian32
  | storeBigEndian64 | storeX86BranchPCRel8 | storeX86BranchPCRel32 | storeX86PCRel8
  | storeX86PCRel16 | storeX86PCRel32 | storeX86PCRel32_1 | storeX86PCRel32_2 | storeX86PCRel32_4
  | storeX86PCRel32GOTLoad | storeX86PCRel32GOTLoadNowLEA | storeX86PCRel32GOT
  | storeX86PCRel32TLVLoad | storeX86PCRel32TLVLoadNowLEA | storeX86Abs32TLVLoad
  | storeX86Abs32TLVLoadNowLEA | storeARMBranch24 | storeThumbBranch22 | storeARMLoad12
  | storeARMLow16 | storeARMHigh16 | storeThumbLow16 | storeThumbHigh16 | storeARM64Branch26
  | storeARM64Page21 | storeARM64PageOff12 | storeARM64GOTLoadPage21 | storeARM64GOTLoadPageOff12
  | storeARM64GOTLeaPage21 | storeARM64GOTLeaPageOff12 | storeARM64TLVPLoadPage21
  | storeARM64TLVPLoadPageOff12 | storeARM64TLVPLoadNowLeaPage21
  | storeARM64TLVPLoadNowLeaPageOff12 | storeARM64PointerToGOT | storeARM64PCRelToGOT
  | storeARM64PointerToGOT32 | dtraceExtra | storeX86DtraceCallSiteNop
  | storeX86DtraceIsEnableSiteClear | storeARMDtraceCallSiteNop | storeARMDtraceIsEnableSiteClear
  | storeARM64DtraceCallSiteNop | storeARM64DtraceIsEnableSiteClear | storeThumbDtraceCallSiteNop
  | storeThumbDtraceIsEnableSiteClear | lazyTarget | setLazyOffset | islandTarget
  | dataInCodeStartData | dataInCodeStartJT8 | dataInCodeStartJT16 | dataInCodeStartJT32
  | dataInCodeStartJTA32 | dataInCodeEnd | linkerOptimizationHint
  | storeTargetAddressLittleEndian32 | storeTargetAddressLittleEndian64
  | storeTargetAddressBigEndian32 | storeTargetAddressBigEndian64
  | setTargetTLVTemplateOffsetLittleEndian32 | setTargetTLVTemplateOffsetLittleEndian64
  | storeTargetAddressX86PCRel32 | storeTargetAddressX86BranchPCRel32
  | storeTargetAddressX86PCRel32GOTLoad | storeTargetAddressX86PCRel32GOTLoadNowLEA
  | storeTargetAddressX86PCRel32TLVLoad | storeTargetAddressX86PCRel32TLVLoadNowLEA
  | storeTargetAddressX86Abs32TLVLoad | storeTargetAddressX86Abs32TLVLoadNowLEA
  | storeTargetAddressARMBranch24 | storeTargetAddressThumbBranch22 | storeTargetAddressARMLoad12
  | storeTargetAddressARM64Branch26 | storeTargetAddressARM64Page21
  | storeTargetAddressARM64PageOff12 | storeTargetAddressARM64PageOff12ConvertAddToLoad
  | storeTargetAddressARM64GOTLoadPage21 | storeTargetAddressARM64GOTLoadPageOff12
  | storeTargetAddressARM64GOTLeaPage21 | storeTargetAddressARM64GOTLeaPageOff12
  | storeTargetAddressARM64TLVPLoadPage21 | storeTargetAddressARM64TLVPLoadPageOff12
  | storeTargetAddressARM64TLVPLoadNowLeaPage21 | storeTargetAddressARM64TLVPLoadNowLeaPageOff12
  | storeLittleEndianAuth64 | storeTargetAddressLittleEndianAuth64 | setAuthData
  | storeRISCVBranch20 | storeRISCVhi20 | storeRISCVlo12 | storeRISCVhi20GOT | storeRISCVlo12GOT
  | storeRISCVhi20PCRel | storeRISCVlo12PCRel | storeRISCVhi20PCRelGOT | storeRISCVlo12PCRelGOT
  | storeRISCVlo12PCRelwasGOT | storeRISCVlo12wasGOT
  deriving DecidableEq, Repr

/-- The kinds for which `applyFixUps` calls `addressOf` on the fixup. -/
def Kind.takesAddress : Kind → Bool
  | setTargetAddress | subtractTargetAddress | setTargetImageOffset
  | storeTargetAddressARMLoad12
  | storeTargetAddressLittleEndian32 | storeTargetAddressLittleEndian64
  | storeTargetAddressLittleEndianAuth64
  | storeTargetAddressBigEndian32 | storeTargetAddressBigEndian64
  | storeTargetAddressX86PCRel32 | storeTargetAddressX86BranchPCRel32
  | storeTargetAddressX86PCRel32GOTLoad | storeTargetAddressX86PCRel32TLVLoad
  | storeTargetAddressX86Abs32TLVLoadNowLEA | storeTargetAddressX86PCRel32GOTLoadNowLEA
  | storeTargetAddressX86PCRel32TLVLoadNowLEA
  | storeTargetAddressARMBranch24 | storeTargetAddressThumbBranch22
  | storeTargetAddressARM64Branch26
  | storeTargetAddressARM64GOTLeaPage21 | storeTargetAddressARM64GOTLoadPage21
  | storeTargetAddressARM64Page21 | storeTargetAddressARM64TLVPLoadPage21
  | storeTargetAddressARM64TLVPLoadNowLeaPage21
  | storeTargetAddressARM64GOTLoadPageOff12 | storeTargetAddressARM64PageOff12
  | storeTargetAddressARM64PageOff12ConvertAddToLoad
  | storeTargetAddressARM64TLVPLoadPageOff12
  | storeTargetAddressARM64GOTLeaPageOff12 | storeTargetAddressARM64TLVPLoadNowLeaPageOff12 =>
    true
  | _ => false

end DeveloperTools.Ld64
