/-!
# PTX instructions

`EntryFunction::Instruction` of `compiler/ptx/include/cumetal/ptx/parser.h:24-30` and the
helpers of `compiler/ir/src/ptx_importer.cpp` that read one instruction.
-/

namespace CuMetal.Ptx

/-- `Instruction` (`parser.h:24-30`). -/
structure Instruction where
  predicate : String := ""
  opcode : String := ""
  operands : List String := []
  line : Int := 0
  supported : Bool := false
  deriving DecidableEq, Repr, Inhabited

/-- `std::isspace` of an unsigned character in the C locale. -/
def isSpace (c : Char) : Bool :=
  c == ' ' || c == '\t' || c == '\n' || c == '\x0b' || c == '\x0c' || c == '\r'

/-- `std::isalnum` of an unsigned character in the C locale. -/
def isAlnum (c : Char) : Bool := c.isAlphanum

/-- `trim` on the characters of a text. -/
def trimChars (input : List Char) : List Char :=
  ((input.dropWhile isSpace).reverse.dropWhile isSpace).reverse

/-- `trim` (`ptx_importer.cpp:32-44`). -/
def trim (input : String) : String := String.ofList (trimChars input.toList)

/-- `root_opcode` (`ptx_importer.cpp:53-56`). -/
def rootOpcode (opcode : String) : String :=
  String.ofList (opcode.toList.takeWhile (· ≠ '.'))

/-- Whether a text occurs in another one, `find(..) != npos`. -/
def occursIn (pattern text : List Char) : Bool :=
  match text with
  | [] => pattern.isEmpty
  | c :: cs => pattern.isPrefixOf (c :: cs) || occursIn pattern cs

/-- `opcode.find(modifier) != std::string::npos`. -/
def hasText (opcode modifier : String) : Bool := occursIn modifier.toList opcode.toList

/-- The characters that continue a register name. -/
def isRegisterChar (c : Char) : Bool := isAlnum c || c == '_' || c == '.' || c == '$'

/-- `registers_in` on characters.  A name holds no `%`, so going on after its first
    character finds the same names as going on after its last. -/
def registersInChars : List Char → List String
  | [] => []
  | c :: cs =>
    if c = '%' && (cs.takeWhile isRegisterChar) ≠ [] then
      String.ofList ('%' :: cs.takeWhile isRegisterChar) :: registersInChars cs
    else registersInChars cs

/-- `registers_in` (`ptx_importer.cpp:62-82`). -/
def registersIn (input : String) : List String := registersInChars input.toList

/-- `first_register` (`ptx_importer.cpp:84-87`). -/
def firstRegister (input : String) : String := (registersIn input).headD ""

/-- `destination_registers` (`ptx_importer.cpp:89-109`). -/
def destinationRegisters (instruction : Instruction) : List String :=
  let root := rootOpcode instruction.opcode
  match instruction.operands with
  | [] => []
  | front :: _ =>
    if instruction.opcode = "ptx.label" || root = "st" || root = "bra" || root = "bar" ||
        root = "membar" || root = "fence" || root = "ret" || root = "exit" ||
        root = "trap" || root = "call" then []
    else
      let destinations := registersIn front
      let tupleMove := root = "mov" && hasText instruction.opcode ".b64"
      let vectorLoad := root = "ld" &&
        (hasText instruction.opcode ".v2." || hasText instruction.opcode ".v4.")
      if root ≠ "setp" && root ≠ "shfl" && !tupleMove && !vectorLoad then
        destinations.take 1
      else destinations

/-- `starts_with` (`ptx_importer.cpp:58-60`). -/
def startsWith (value start : String) : Bool := start.toList.isPrefixOf value.toList

/-- The names that `source_registers` erases. -/
def isSpecialRegister (name : String) : Bool :=
  startsWith name "%tid." || startsWith name "%ctaid." || startsWith name "%ntid." ||
    startsWith name "%nctaid." || name == "%laneid" || name == "%warpid" ||
    name == "%smid" || name == "%activemask" || startsWith name "%clock"

/-- `source_registers` (`ptx_importer.cpp:111-135`). -/
def sourceRegisters (instruction : Instruction) : List String :=
  let root := rootOpcode instruction.opcode
  let firstSource :=
    if root = "st" then 0 else if destinationRegisters instruction = [] then 0 else 1
  let fromOperands := (instruction.operands.drop firstSource).flatMap registersIn
  let fromPredicate :=
    if instruction.predicate ≠ "" && firstRegister instruction.predicate ≠ "" then
      [firstRegister instruction.predicate]
    else []
  (fromOperands ++ fromPredicate).filter fun name => !isSpecialRegister name

/-- `branch_target` (`ptx_importer.cpp:1137-1139`). -/
def branchTarget (instruction : Instruction) : String :=
  match instruction.operands.getLast? with
  | none => ""
  | some target => trim target

/-- `is_conditional_branch` (`ptx_importer.cpp:1141-1143`). -/
def isConditionalBranch (instruction : Instruction) : Bool :=
  rootOpcode instruction.opcode == "bra" && instruction.predicate != ""

/-- `is_terminating_instruction` (`ptx_importer.cpp:1145-1148`). -/
def isTerminatingInstruction (instruction : Instruction) : Bool :=
  rootOpcode instruction.opcode == "bra" || rootOpcode instruction.opcode == "ret" ||
    rootOpcode instruction.opcode == "exit" || rootOpcode instruction.opcode == "trap"

/-- `normalized_predicate` (`ptx_importer.cpp:1227-1230`). -/
def normalizedPredicate (predicate : String) : String × Bool :=
  (firstRegister predicate, predicate.toList.contains '!')

/-- The guard of an instruction holds: there is none, or the predicate register has the
    value that it asks for. -/
def takesEffect (instruction : Instruction) (holds : Bool) : Bool :=
  instruction.predicate == "" || (holds != (normalizedPredicate instruction.predicate).2)

/-- `instruction.opcode == "ptx.label"`. -/
def isLabel (instruction : Instruction) : Bool := instruction.opcode == "ptx.label"

end CuMetal.Ptx
