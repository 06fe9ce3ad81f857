/-! # What can be wrong with a binary input -/
namespace OnePass.Elf

inductive FormatFault where
  | headerSize
  | unsupportedHeader
  | sectionHeaderEntrySize
  | firstSectionHeader
  | sectionHeaders
  | noStringSection
  | badStringSection
  | sectionNamesSize
  | sectionData
  | symbolData
  | extendedIndexData
  | sectionIndex
  | stringSectionType
  | stringSectionRange
  | archiveSymbolTable
  | memberTooLarge
  deriving DecidableEq, Repr

def FormatFault.text : FormatFault → String
  | .headerSize => "Invalid ELF header size or alignment"
  | .unsupportedHeader => "Unsupported ELF header"
  | .sectionHeaderEntrySize => "Invalid ELF section header entry size"
  | .firstSectionHeader => "Invalid ELF section header offset or size"
  | .sectionHeaders => "Invalid ELF section header offset/size/alignment"
  | .noStringSection => "Missing ELF e_shstrndx"
  | .badStringSection => "Invalid ELF e_shstrndx"
  | .sectionNamesSize => "Invalid ELF shstrtab size"
  | .sectionData => "Invalid ELF section size or offset"
  | .symbolData => "Invalid ELF symbol table data"
  | .extendedIndexData => "Invalid ELF symtab_shndx data"
  | .sectionIndex => "Invalid ELF section index"
  | .stringSectionType => "Invalid ELF string section type"
  | .stringSectionRange => "Invalid ELF string section offset or size"
  | .archiveSymbolTable => "Invalid archive symbol table"
  | .memberTooLarge => "Archive member size is too large"

inductive SectionFault where
  | secondSymbolTable
  | otherType (name : String)
  | tooLarge (name : String)
  | definedElsewhere (name : String)
  deriving DecidableEq, Repr

def SectionFault.text : SectionFault → String
  | .secondSymbolTable => "object must contain only one symtab"
  | .otherType name => "invalid section type for '" ++ name ++ "'"
  | .tooLarge name => "section '" ++ name ++ "' is too large"
  | .definedElsewhere name => "'" ++ name ++ "' is defined in an unsupported section"

inductive MemberFault where
  | header
  | terminator
  | size
  | extendedName
  | extendedLength
  | offset
  | data
  deriving DecidableEq, Repr

def MemberFault.text : MemberFault → String
  | .header => "Invalid archive member header"
  | .terminator => "Invalid archive terminator"
  | .size => "Invalid archive member size"
  | .extendedName => "Invalid archive extended name offset"
  | .extendedLength => "Invalid archive extended name length"
  | .offset => "Invalid archive member offset"
  | .data => FormatFault.memberTooLarge.text

inductive ArchiveFault where
  | tooShort
  | identifier
  | symbolName
  | symbolMember
  | member (fault : MemberFault)
  | noMember (offset : Nat) (symbol : String) (fault : MemberFault)
  deriving DecidableEq, Repr

def ArchiveFault.text : ArchiveFault → String
  | .tooShort => "Invalid archive size"
  | .identifier => "Unsupported archive identifier"
  | .symbolName => "Missing archive symbol name"
  | .symbolMember => "Invalid archive symbol member index"
  | .member fault => fault.text
  | .noMember offset symbol fault =>
    "no member at " ++ toString offset ++ " for '" ++ symbol ++ "': " ++ fault.text

inductive ScriptFault where
  | binary
  | unexpected (word : String)
  | unclosed
  | asNeeded
  deriving DecidableEq, Repr

def ScriptFault.text : ScriptFault → String
  | .binary => "binary data"
  | .unexpected word => "unexpected '" ++ word ++ "'"
  | .unclosed => "missing ')'"
  | .asNeeded => "'(' expected after AS_NEEDED"

inductive LoadError where
  | truncatedHeader
  | malformed (fault : FormatFault)
  | unsupportedClass
  | wrongMachine (machine : Nat)
  | unrecognizedType (type : Nat)
  | relRelocations
  | invalidSection (fault : SectionFault)
  | invalidRelocation (section_ : String) (index : Nat)
  | definedTwice (name : String)
  | invalidArchive (fault : ArchiveFault)
  | invalidScript (fault : ScriptFault)
  deriving DecidableEq, Repr

def LoadError.text : LoadError → String
  | .truncatedHeader => "truncated file (ELF header)"
  | .malformed fault => "malformed file: " ++ fault.text
  | .unsupportedClass => "only 64-bit little-endian ELF files are supported"
  | .wrongMachine machine => "bad architecture (e_machine " ++ toString machine ++ ")"
  | .unrecognizedType _ => "unrecognized ELF file"
  | .relRelocations => "REL relocations not supported"
  | .invalidSection fault => fault.text
  | .invalidRelocation name index =>
    "invalid relocation entry [" ++ toString index ++ "] in '" ++ name ++ "'"
  | .definedTwice name => "'" ++ name ++ "' defined twice"
  | .invalidArchive fault => "invalid archive: " ++ fault.text
  | .invalidScript fault => "unrecognized file type: " ++ fault.text

end OnePass.Elf
