import Mathlib.Data.List.DropRight
import NetFT.Library.Search
import NetFT.Validate

/-! The sensor's configuration document (`xml_config.cpp`). Views of the document are lists of
bytes, and positions in it are indices. An access outside a view, which the source would leave
undefined, and a `substr` beyond its end are failures of their own, apart from the
`DiscoveryError`s. -/

namespace NetFT.Detail.Xml
open Library

abbrev Bytes := List UInt8

def byte (c : Char) : UInt8 := c.toNat.toUInt8

def ascii (text : String) : Bytes := text.toList.map byte

inductive Failure
  /-- `DiscoveryError` with its message. -/
  | discovery (message : String)
  /-- `std::out_of_range`. -/
  | outOfRange
  /-- An access outside a view. -/
  | undefined
  /-- The loop was not given enough iterations. -/
  | outOfFuel
  deriving DecidableEq, Repr

/-! ## Views -/

/-- `view.substr(position, count)`, without `count` up to the end. -/
def substr (view : Bytes) (position : Nat) (count : Option Nat := none) : Except Failure Bytes :=
  if position > view.length then .error .outOfRange
  else
    match count with
    | none => .ok (view.drop position)
    | some count => .ok ((view.drop position).take count)

/-- `view.find(needle, position)`. -/
def find (view needle : Bytes) (position : Nat) : Option Nat :=
  (firstIndex needle (view.drop position)).map (position + ·)

def front : Bytes → Except Failure UInt8
  | [] => .error .undefined
  | c :: _ => .ok c

def back (view : Bytes) : Except Failure UInt8 :=
  match view.getLast? with
  | none => .error .undefined
  | some c => .ok c

/-- `view.find_first_of(set)`. -/
def findFirstOf (set view : Bytes) : Option Nat := view.findIdx? (· ∈ set)

def lessThan : UInt8 := byte '<'
def greaterThan : UInt8 := byte '>'
def singleQuote : UInt8 := byte '\''
def doubleQuote : UInt8 := byte '"'
def slash : UInt8 := byte '/'

def blanks : Bytes := [' ', '\t', '\r', '\n', '\x0c', '\x0b'].map byte

def isAsciiWhitespace (c : UInt8) : Bool := c ∈ blanks

def trimAsciiWhitespace (value : Bytes) : Bytes :=
  (value.dropWhile isAsciiWhitespace).rdropWhile isAsciiWhitespace

/-! ## The scanner -/

/-- The elements with a value that is used. -/
inductive Field
  | prodname | cfgcpf | cfgcpt | scfgfu | scfgtu
  deriving DecidableEq, Repr

/-- `kRequiredTags` -/
def Field.tag : Field → String
  | .prodname => "prodname"
  | .cfgcpf => "cfgcpf"
  | .cfgcpt => "cfgcpt"
  | .scfgfu => "scfgfu"
  | .scfgtu => "scfgtu"

def Field.all : List Field := [.prodname, .cfgcpf, .cfgcpt, .scfgfu, .scfgtu]

def kMaximumFieldLength : Nat := 128

def requiredTag (name : Bytes) : Option Field := Field.all.find? fun field => name = ascii field.tag

structure OpenElement where
  name : Bytes
  required : Option Field
  deriving DecidableEq, Repr

/-- What the scanner has read: the open elements, the innermost one first, the fields that were
opened, and their texts. -/
structure Scanner where
  elements : List OpenElement := []
  seen : Field → Bool := fun _ => false
  fields : Field → Bytes := fun _ => []

def unterminated : Failure := .discovery "sensor configuration contains unterminated markup"

def malformed : Failure := .discovery "sensor configuration contains malformed markup"

def nesting : Failure := .discovery "sensor configuration contains malformed element nesting"

def Field.failure (field : Field) (problem : String) : Failure :=
  .discovery ("sensor configuration field '" ++ field.tag ++ "' " ++ problem)

/-- The rest of the loop of `find_tag_end` over the bytes that are left, with the open quote, or
zero. -/
def tagEnd (quote : UInt8) : Bytes → Option Nat
  | [] => none
  | c :: rest =>
    if quote ≠ 0 then
      if c = quote then (tagEnd 0 rest).map (· + 1) else (tagEnd quote rest).map (· + 1)
    else if c = singleQuote ∨ c = doubleQuote then (tagEnd c rest).map (· + 1)
    else if c = greaterThan then some 0
    else (tagEnd quote rest).map (· + 1)

def findTagEnd (xml : Bytes) (start : Nat) : Except Failure Nat :=
  match tagEnd 0 (xml.drop start) with
  | none => .error unterminated
  | some i => .ok (start + i)

namespace Scanner

/-- The field whose element is the innermost open one. -/
def current (s : Scanner) : Option Field := s.elements.head?.bind OpenElement.required

def appendRequiredText (s : Scanner) (text : Bytes) : Scanner :=
  match s.current with
  | none => s
  | some field => { s with fields := Function.update s.fields field (s.fields field ++ text) }

/-- A tag that begins with a slash. -/
def closeElement (s : Scanner) (tag : Bytes) : Except Failure Scanner := do
  let view ← substr tag 1
  let name := trimAsciiWhitespace view
  if name = [] ∨ (findFirstOf (blanks ++ ascii "/") name).isSome then .error nesting
  else
    match s.elements with
    | [] => .error nesting
    | element :: elements => if element.name ≠ name then .error nesting else .ok { s with elements }

/-- A tag with a name, of an element that is left open unless the tag closes itself. -/
def openElement (s : Scanner) (name : Bytes) (selfClosing : Bool) : Except Failure Scanner :=
  let required := requiredTag name
  let push (s : Scanner) : Scanner :=
    if selfClosing then s else { s with elements := { name, required } :: s.elements }
  if s.current.isSome then
    .error (.discovery "sensor configuration fields must contain text only")
  else
    match required with
    | none => .ok (push s)
    | some field =>
      if s.seen field then .error (field.failure "must appear exactly once")
      else .ok (push { s with seen := Function.update s.seen field true })

/-- The tag without the slash of a tag that closes itself, and whether it does. -/
def selfClosing (tag : Bytes) : Except Failure (Bytes × Bool) := do
  let last ← back tag
  if last = slash then
    let view ← substr tag 0 (some (tag.length - 1))
    return (trimAsciiWhitespace view, true)
  else return (tag, false)

/-- What is between the brackets of a tag. -/
def handleTag (s : Scanner) (view : Bytes) : Except Failure Scanner :=
  let tag := trimAsciiWhitespace view
  if tag = [] then .error malformed
  else do
    let first ← front tag
    if first = slash then s.closeElement tag
    else do
      let (tag, selfClosing) ← selfClosing tag
      let name ← substr tag 0 (findFirstOf blanks tag)
      if name = [] then .error malformed
      else do
        let first ← front name
        if first = slash then .error malformed else s.openElement name selfClosing

end Scanner

/-- The scanner and its position in the document. -/
structure Scan extends Scanner where
  position : Nat := 0

/-- One iteration of the loop, from a position inside the document. -/
def scanStep (xml : Bytes) (s : Scan) : Except Failure Scan := do
  match find xml (ascii "<") s.position with
  | none =>
    let text ← substr xml s.position
    return { toScanner := s.appendRequiredText text, position := xml.length }
  | some markup =>
    let text ← substr xml s.position (some (markup - s.position))
    let scanner := s.appendRequiredText text
    if (← substr xml markup (some 4)) = ascii "<!--" then
      match find xml (ascii "-->") (markup + 4) with
      | none =>
        .error (.discovery "sensor configuration contains an unterminated comment")
      | some finish => return { toScanner := scanner, position := finish + 3 }
    else if (← substr xml markup (some 9)) = ascii "<![CDATA[" then
      match find xml (ascii "]]>") (markup + 9) with
      | none => .error (.discovery "sensor configuration contains unterminated CDATA")
      | some finish =>
        let text ← substr xml (markup + 9) (some (finish - markup - 9))
        return { toScanner := scanner.appendRequiredText text, position := finish + 3 }
    else if (← substr xml markup (some 2)) = ascii "<?" then
      match find xml (ascii "?>") (markup + 2) with
      | none => .error unterminated
      | some finish => return { toScanner := scanner, position := finish + 2 }
    else if (← substr xml markup (some 2)) = ascii "<!" then
      .error (.discovery "sensor configuration contains unsupported markup")
    else
      let finish ← findTagEnd xml (markup + 1)
      let view ← substr xml (markup + 1) (some (finish - markup - 1))
      let scanner ← scanner.handleTag view
      return { toScanner := scanner, position := finish + 1 }

/-- The loop, for at most the given number of iterations. -/
def scan (xml : Bytes) : Nat → Scan → Except Failure Scan
  | fuel, s =>
    if s.position < xml.length then
      match fuel with
      | 0 => .error .outOfFuel
      | fuel + 1 => do
        let s ← scanStep xml s
        scan xml fuel s
    else .ok s

/-- One iteration of the second loop: the value of a field. -/
def Scanner.field (s : Scanner) (field : Field) : Except Failure Bytes :=
  if s.seen field = false then
    -- firmware that omits the display name
    if field = .prodname then .ok (ascii "ATI Net F/T")
    else .error (field.failure "must appear exactly once")
  else
    let value := trimAsciiWhitespace (s.fields field)
    if value = [] then .error (field.failure "is empty")
    else if value.length > kMaximumFieldLength then .error (field.failure "is too long")
    else .ok value

structure RequiredFields where
  prodname : Bytes
  cfgcpf : Bytes
  cfgcpt : Bytes
  scfgfu : Bytes
  scfgtu : Bytes
  deriving DecidableEq, Repr

def Scanner.finish (s : Scanner) : Except Failure RequiredFields :=
  if s.elements ≠ [] then .error nesting
  else do
    let prodname ← s.field .prodname
    let cfgcpf ← s.field .cfgcpf
    let cfgcpt ← s.field .cfgcpt
    let scfgfu ← s.field .scfgfu
    let scfgtu ← s.field .scfgtu
    return { prodname, cfgcpf, cfgcpt, scfgfu, scfgtu }

def extractRequiredFields (xml : Bytes) : Except Failure RequiredFields := do
  let s ← scan xml xml.length {}
  s.finish

/-! ## Values -/

/-- What the standard library does for `parse_positive_count`. -/
structure NumberReader (D : Type) where
  /-- The message, if the floating-point environment cannot be prepared. -/
  environment : Option String
  /-- Extraction of a number from a stream, without skipping blanks: the number and the characters
  that are left, unless it fails. -/
  read : Bytes → Option (D × Bytes)

section
variable {D : Type} [Double D] [CountOrder D]

def parsePositiveCount (reader : NumberReader D) (value : Bytes) (field : Field) :
    Except Failure D :=
  match reader.environment with
  | some message => .error (.discovery message)
  | none =>
    let failure := field.failure "must be a finite positive number"
    if value = [] then .error failure
    else do
      let first ← front value
      if first = byte '+' then .error failure
      else
        match reader.read value with
        | none => .error failure
        | some (result, rest) =>
          if rest ≠ [] ∨ Double.isfinite result = false ∨ CountOrder.nonpositive result = true then
            .error failure
          else .ok result

def normalizeTorqueSpelling (value : Bytes) : Bytes :=
  if value = ascii "Nm" then ascii "N-m"
  else if value = ascii "Nmm" then ascii "N-mm"
  else if value = ascii "kg-cm" then ascii "kgf-cm"
  else value

def forceUnitText : ForceUnit → String
  | .unknown => "unknown"
  | .poundForce => "lbf"
  | .newton => "N"
  | .kiloPoundForce => "klbf"
  | .kiloNewton => "kN"
  | .kilogramForce => "kgf"

def torqueUnitText : TorqueUnit → String
  | .unknown => "unknown"
  | .poundForceInch => "lbf-in"
  | .poundForceFoot => "lbf-ft"
  | .newtonMeter => "N-m"
  | .newtonMillimeter => "N-mm"
  | .kilogramForceCentimeter => "kgf-cm"
  | .kiloNewtonMeter => "kN-m"

def forceUnitFromString (value : Bytes) : Option ForceUnit :=
  [.unknown, .poundForce, .newton, .kiloPoundForce, .kiloNewton, .kilogramForce].find?
    fun unit => ascii (forceUnitText unit) = value

def torqueUnitFromString (value : Bytes) : Option TorqueUnit :=
  [.unknown, .poundForceInch, .poundForceFoot, .newtonMeter, .newtonMillimeter,
    .kilogramForceCentimeter, .kiloNewtonMeter].find?
    fun unit => ascii (torqueUnitText unit) = value

def parseForceUnit (value : Bytes) : Except Failure ForceUnit :=
  match forceUnitFromString value with
  | none | some .unknown =>
    .error (.discovery "sensor configuration contains an unknown force unit")
  | some unit => .ok unit

def parseTorqueUnit (value : Bytes) : Except Failure TorqueUnit :=
  match torqueUnitFromString (normalizeTorqueSpelling value) with
  | none | some .unknown =>
    .error (.discovery "sensor configuration contains an unknown torque unit")
  | some unit => .ok unit

/-- A `std::string` as a string of one character a byte. -/
def text (value : Bytes) : String := String.ofList (value.map fun c => Char.ofNat c.toNat)

def parseSensorConfiguration (reader : NumberReader D) (xml : Bytes) :
    Except Failure (SensorConfiguration D) := do
  let fields ← extractRequiredFields xml
  let countsPerForceUnit ← parsePositiveCount reader fields.cfgcpf .cfgcpf
  let countsPerTorqueUnit ← parsePositiveCount reader fields.cfgcpt .cfgcpt
  let forceUnit ← parseForceUnit fields.scfgfu
  let torqueUnit ← parseTorqueUnit fields.scfgtu
  let calibration : Calibration D :=
    { countsPerForceUnit, countsPerTorqueUnit, forceUnit, torqueUnit }
  match calibration.validate with
  | .error message => .error (.discovery message)
  | .ok () => return { productName := text fields.prodname, calibration, source := .sensor, revision := 1 }

end

end NetFT.Detail.Xml
