import AgenticKibana.Receivers.Cef
import AgenticKibana.Library.JsonText

/-!
# Records of JSON texts and of syslog lines

A pushed text of JSON becomes one record for a document that is an object or a scalar, and one for
every item of an array; a text that is no JSON becomes an error record, but for one beyond the
limits of the interpreter, whose failure is not caught.  Every line of syslog gives one record.
Behind the header of a line of RFC 5424 stands either `-` or some elements `[id name="value"
...]`, whose end is found by counting brackets.
-/

namespace AgenticKibana.Receivers

open AgenticKibana.Library
open AgenticKibana.Library.TextLines

/-! ### The parser -/

def lstrip (text : Text) : Text := text.dropWhile isSpace

/-- The inner loop of `_split_structured_data`: the text up to the bracket that closes the
first one, and what follows.  A backslash hides the next character. -/
def takeElement : Nat → Text → Text × Text
  | _, [] => ([], [])
  | depth, '\\' :: c :: rest =>
    let m := takeElement depth rest
    ('\\' :: c :: m.1, m.2)
  | depth, ch :: rest =>
    if ch = '[' then
      let m := takeElement (depth + 1) rest
      (ch :: m.1, m.2)
    else if ch = ']' then
      if depth = 1 then ([ch], rest)
      else
        let m := takeElement (depth - 1) rest
        (ch :: m.1, m.2)
    else
      let m := takeElement depth rest
      (ch :: m.1, m.2)

/-- `(?:[^"\\]|\\.)*"`: what stands before the quote, and what follows it. -/
def takeQuoted : Text → Option (Text × Text)
  | [] => none
  | '"' :: rest => some ([], rest)
  | '\\' :: c :: rest =>
    if c = '\n' then none else (takeQuoted rest).map fun m => ('\\' :: c :: m.1, m.2)
  | c :: rest => if c = '\\' then none else (takeQuoted rest).map fun m => (c :: m.1, m.2)

def unescapeSd (value : Text) : Text :=
  replacePair '\\' '\\' '\\' (replacePair '\\' ']' ']' (replacePair '\\' '"' '"' value))

section Params

variable (word : WordClass)

/-- `_SD_PARAM_RE` at the beginning of a text. -/
def matchParam (text : Text) : Option (Text × Text) :=
  match text.takeWhile word.holds, text.dropWhile word.holds with
  | c :: name, '=' :: '"' :: rest => (takeQuoted rest).map fun m => (c :: name, m.1)
  | _, _ => none

/-- `_SD_PARAM_RE.finditer`, after some characters that belong to the last match. -/
def findParams : Nat → Text → List (Text × Text)
  | _, [] => []
  | skip + 1, _ :: cs => findParams skip cs
  | 0, c :: cs =>
    match matchParam word (c :: cs) with
    | some (name, value) => (name, value) :: findParams (name.length + value.length + 2) cs
    | none => findParams 0 cs

abbrev SdParams := Dict Text Text

def sdInner (element : Text) : Text :=
  let inner := strip element
  strip
    (if inner.head? = some '[' ∧ inner.getLast? = some ']' then inner.tail.dropLast else inner)

def parseSdElement (element : Text) : Text × SdParams :=
  let inner := sdInner element
  if inner = [] then ([], Dict.empty)
  else
    let found := findParams word 0 ((inner.dropWhile (· ≠ ' ')).drop 1)
    (inner.takeWhile (· ≠ ' '),
      Dict.ofList (found.map fun m => (m.1, unescapeSd m.2)))

def skipBlank : Text → Text
  | ' ' :: rest => rest
  | rest => rest

/-- The outer loop of `_split_structured_data`; `fuel` is the length of the text. -/
def sdLoop : Nat → Dict Text SdParams → Text → Dict Text SdParams × Text
  | fuel + 1, structured, '[' :: rest =>
    let m := takeElement 0 ('[' :: rest)
    let (id, params) := parseSdElement word m.1
    sdLoop fuel (if id ≠ [] then structured.set id params else structured) (skipBlank m.2)
  | _, structured, rest => (structured, rest)

def splitStructuredData (rest : Text) : Dict Text SdParams × Text :=
  match lstrip rest with
  | '-' :: rest => (Dict.empty, lstrip rest)
  | rest =>
    let m := sdLoop word rest.length Dict.empty rest
    (m.1, if rest.head? = some '[' then lstrip m.2 else m.2)

end Params

/-! ### What RFC 5424 prescribes -/

/-- A name (SD-NAME): up to 32 printable characters of ASCII other than `=`, `]`, `"` and the
blank. -/
structure SdName where
  text : Text
  nonempty : text ≠ []
  short : text.length ≤ 32
  allowed : ∀ c ∈ text, 33 ≤ c.toNat ∧ c.toNat ≤ 126 ∧ c ≠ '=' ∧ c ≠ ']' ∧ c ≠ '"'

structure SdElement where
  id : SdName
  params : List (SdName × Text)

def escapeSdChar (c : Char) : Text :=
  if c = '"' ∨ c = '\\' ∨ c = ']' then ['\\', c] else [c]

def escapeSd (value : Text) : Text := value.flatMap escapeSdChar

/-- `name="value"`, with the blank before it. -/
def encodeParam (param : SdName × Text) : Text :=
  ' ' :: param.1.text ++ '=' :: '"' :: escapeSd param.2 ++ ['"']

def SdElement.encodeParams (e : SdElement) : Text := e.params.flatMap encodeParam

/-- `[id name="value" ...]`. -/
def SdElement.encode (e : SdElement) : Text := '[' :: e.id.text ++ e.encodeParams ++ [']']

/-- The elements, or `-` if there are none, and the message. -/
def encodeSd (elements : List SdElement) (message : Text) : Text :=
  (if elements = [] then ['-'] else elements.flatMap SdElement.encode) ++ ' ' :: message

def SdParsed (word : WordClass) (elements : List SdElement) (message : Text) : Prop :=
  let m := splitStructuredData word (encodeSd elements message)
  m.1.entries.map (fun e => (e.1, e.2.entries)) =
      elements.map (fun e => (e.id.text, e.params.map fun p => (p.1.text, p.2))) ∧
    m.2 = message

/-! ### Records -/

open AgenticKibana.Library.Json (loads)

abbrev Obj := List (String × Json)

/-! ### `json` -/

/-- What `json.loads` does where it reads no value. -/
structure JsonModule where
  /-- The message of the `JSONDecodeError`. -/
  reason : Text → Text
  /-- Nested deeper, or a number of more digits, than the interpreter allows: `RecursionError` or
  `ValueError`. -/
  exceeds : Text → Bool
  /-- A message stands on one line. -/
  oneLine : ∀ text, ∀ c ∈ reason text, isBreak c = false

inductive Loaded where
  | value (j : Json)
  | malformed (reason : Text)
  | raised

def JsonModule.loads (json : JsonModule) (text : Text) : Loaded :=
  if json.exceeds text then .raised
  else
    match Json.loads text with
    | some j => .value j
    | none => .malformed (json.reason text)

/-- `\u` and four digits. -/
def unicodeEscape (n : Nat) : Text :=
  ['\\', 'u', Json.hexDigit (n / 4096 % 16), Json.hexDigit (n / 256 % 16),
    Json.hexDigit (n / 16 % 16), Json.hexDigit (n % 16)]

/-- A character of a string under `ensure_ascii`. -/
def asciiChar (c : Char) : Text :=
  if c.toNat < 0x7F then Json.escapeChar c
  else if c.toNat < 0x10000 then unicodeEscape c.toNat
  else
    unicodeEscape (0xD800 + (c.toNat - 0x10000) / 0x400) ++
      unicodeEscape (0xDC00 + (c.toNat - 0x10000) % 0x400)

def asciiQuote (s : String) : Text := '"' :: s.toList.flatMap asciiChar ++ ['"']

mutual
/-- `json.dumps(value)`. -/
def dumpsDefault : Json → Text
  | .null => Json.text .null
  | .bool b => Json.text (.bool b)
  | .int n => Json.text (.int n)
  | .float d => Json.text (.float d)
  | .str s => asciiQuote s
  | .arr xs => '[' :: [',', ' '].intercalate (dumpsItems xs) ++ [']']
  | .obj ms => '\x7b' :: [',', ' '].intercalate (dumpsMembers ms) ++ ['\x7d']
termination_by structural j => j

def dumpsItems : List Json → List Text
  | [] => []
  | x :: xs => dumpsDefault x :: dumpsItems xs
termination_by structural j => j

def dumpsMembers : List (String × Json) → List Text
  | [] => []
  | m :: ms => dumpsMember m :: dumpsMembers ms
termination_by structural j => j

def dumpsMember : String × Json → Text
  | (k, v) => asciiQuote k ++ ':' :: ' ' :: dumpsDefault v
termination_by structural j => j
end

/-- `_error_record`, as a dictionary of JSON values. -/
def errorMembers (raw reason : Text) : Obj :=
  [("message", .str (String.ofList raw)), ("_parse_error", .str (String.ofList reason))]

def coerceItem : Json → Obj
  | .obj record => record
  | .str s => [("message", .str s)]
  | item => [("message", .str (String.ofList (dumpsDefault item)))]

def coerceJson : Json → List Obj
  | .arr items => items.map coerceItem
  | j => [coerceItem j]

/-- Read a text and make records of it; `none` where the failure is not caught. -/
def JsonModule.records (json : JsonModule) (format text : Text) : Option (List Obj) :=
  match json.loads text with
  | .raised => none
  | .malformed reason => some [errorMembers text (format ++ reason)]
  | .value j => some (coerceJson j)

variable (json : JsonModule)

def parseJson (payload : Payload) : Option (List Obj) :=
  let text := strip payload.toText
  if text = [] then some [] else json.records "json: ".toList text

/-- The loop of `parse_ndjson`. -/
def parseJsonLines : List Text → Option (List Obj)
  | [] => some []
  | line :: lines =>
    if strip line = [] then parseJsonLines lines
    else
      (json.records "ndjson: ".toList (strip line)).bind fun out =>
        (parseJsonLines lines).map (out ++ ·)

def parseNdjson (payload : Payload) : Option (List Obj) :=
  parseJsonLines json (splitLines payload.toText)

/-! ### Syslog lines -/

/-- What the character database says of `\d` and of `int`: the digits of all scripts. -/
structure Digits where
  value : Char → Option Nat
  ascii : ∀ c : Char, c.toNat < 128 → value c = if c.isDigit then some (c.toNat - 48) else none

def asciiDigits : Digits where
  value c := if c.isDigit then some (c.toNat - 48) else none
  ascii _ _ := rfl

def textValue (text : Text) : Json := .str (String.ofList text)

/-- `record.setdefault(key, value)`. -/
def setDefaultMember (record : Obj) (key : String) (value : Json) : Obj :=
  if (Dict.lookup key record).isSome then record else Dict.assign key value record

/-- `\s+`, `\S+` and the like: as much as there is. -/
def takeRun (p : Char → Bool) (text : Text) : Option (Text × Text) :=
  if text.takeWhile p = [] then none else some (text.takeWhile p, text.dropWhile p)

/-- `(\S+)\s+`. -/
def takeField (text : Text) : Option (Text × Text) := do
  let (field, rest) ← takeRun (fun c => !isSpace c) text
  let (_, rest) ← takeRun isSpace rest
  return (field, rest)

section Lines

variable (digits : Digits) (word : WordClass)

/-- `\d`. -/
def isDecimal (c : Char) : Bool := (digits.value c).isSome

/-- `int` of a run of digits. -/
def decimalValue (text : Text) : Nat :=
  text.foldl (fun n c => 10 * n + (digits.value c).getD 0) 0

/-- `^<(\d{1,3})>`. -/
def matchPri : Text → Option (Text × Text)
  | '<' :: rest =>
    let pri := (rest.take 3).takeWhile (isDecimal digits)
    match rest.drop pri.length with
    | '>' :: rest => if pri = [] then none else some (pri, rest)
    | _ => none
  | _ => none

def severityNames : List String :=
  ["emergency", "alert", "critical", "error", "warning", "notice", "informational", "debug"]

def syslogSeverityScore (severity : Nat) : Nat := [95, 95, 95, 75, 50, 25, 11, 11].getD severity 11

def priMembers (pri : Nat) : Obj :=
  [("pri", .int pri), ("facility", .int (pri / 8 : Nat)), ("severity", .int (pri % 8 : Nat)),
    ("severity_score", .float (Decimal.ofInt (syslogSeverityScore (pri % 8)))),
    ("severity_label", .str (severityNames.getD (pri % 8) ""))]

/-- `_nil`. -/
def nilValue (field : Text) : Json := if field = ['-'] then .null else textValue field

/-- The groups of `_SYSLOG5424_HEADER_RE`, and what follows. -/
structure Header5424 where
  pri : Text
  version : Char
  timestamp : Text
  host : Text
  app : Text
  procid : Text
  msgid : Text
  rest : Text

def matchHeader5424 (line : Text) : Option Header5424 := do
  let (pri, rest) ← matchPri digits line
  let version ← rest.head?.filter (isDecimal digits)
  let (_, rest) ← takeRun isSpace rest.tail
  let (timestamp, rest) ← takeField rest
  let (host, rest) ← takeField rest
  let (app, rest) ← takeField rest
  let (procid, rest) ← takeField rest
  let (msgid, rest) ← takeField rest
  return { pri, version, timestamp, host, app, procid, msgid, rest }

def parse5424Line (line : Text) : Obj :=
  match matchHeader5424 digits line with
  | none => errorMembers line "syslog5424: header mismatch".toList
  | some m =>
    let (structured, msg) := splitStructuredData word m.rest
    let record := priMembers (decimalValue digits m.pri) ++
      [("version", textValue [m.version]), ("host", nilValue m.host),
        ("hostname", nilValue m.host), ("app", nilValue m.app), ("appname", nilValue m.app),
        ("procid", nilValue m.procid), ("msgid", nilValue m.msgid),
        ("message", textValue (strip msg)), ("_raw", textValue line)]
    let record :=
      if m.timestamp = ['-'] then record
      else Dict.assign "timestamp" (textValue m.timestamp) record
    if structured.entries = [] then record
    else
      let elements : Obj := structured.entries.map fun element =>
        (String.ofList element.1,
          .obj (element.2.entries.map fun param => (String.ofList param.1, textValue param.2)))
      (structured.entries.flatMap fun element => element.2.entries).foldl
        (fun record param => setDefaultMember record (String.ofList param.1) (textValue param.2))
        (Dict.assign "structured_data" (.obj elements) record)

/-- `[A-Z][a-z]{2}\s+\d{1,2}\s+\d{2}:\d{2}:\d{2}`. -/
def matchBsdTimestamp (text : Text) : Option (Text × Text) :=
  match text with
  | a :: b :: c :: rest =>
    if a.isUpper && b.isLower && c.isLower then do
      let (gap, rest) ← takeRun isSpace rest
      let day := (rest.take 2).takeWhile (isDecimal digits)
      let (gap', rest) ← if day = [] then none else takeRun isSpace (rest.drop day.length)
      match rest with
      | h :: h' :: ':' :: m :: m' :: ':' :: s :: s' :: rest =>
        if [h, h', m, m', s, s'].all (isDecimal digits) then
          some (a :: b :: c :: gap ++ day ++ gap' ++ [h, h', ':', m, m', ':', s, s'], rest)
        else none
      | _ => none
    else none
  | _ => none

/-- The groups of `_SYSLOG3164_RE`; a line holds no line feed, so `.*` takes what is left. -/
def matchHeader3164 (line : Text) : Option (Text × Text × Text × Text) := do
  let (pri, rest) ← matchPri digits line
  let (timestamp, rest) ← matchBsdTimestamp digits rest
  let (_, rest) ← takeRun isSpace rest
  let (host, rest) ← takeField rest
  return (pri, timestamp, host, rest)

/-- The digits of `\[(\d+)\]`, and what follows; nothing where the group is left out. -/
def takePid (text : Text) : Text × Text :=
  match text with
  | '[' :: rest =>
    match rest.takeWhile (isDecimal digits), rest.dropWhile (isDecimal digits) with
    | d :: pid, ']' :: rest => (d :: pid, rest)
    | _, _ => ([], text)
  | _ => ([], text)

/-- The groups `tag`, `pid` and `msg` of `_TAG_RE`. -/
def matchTag (text : Text) : Option (Text × Text × Text) := do
  let (tag, rest) ← takeRun (fun c => word.holds c || c == '.' || c == '/' || c == '-') text
  let (pid, rest) := takePid digits rest
  let rest := if rest.head? = some ':' then rest.tail else rest
  return (tag, pid, rest.dropWhile isSpace)

def parse3164Line (line : Text) : Obj :=
  match matchHeader3164 digits line with
  | none =>
    match matchPri digits line with
    | some (pri, rest) =>
      (priMembers (decimalValue digits pri) ++ [("message", textValue (strip rest))]).foldl
        (fun record m => Dict.assign m.1 m.2 record)
        [("message", textValue line), ("_raw", textValue line)]
    | none =>
      [("message", textValue line), ("_raw", textValue line),
        ("_parse_error", .str "syslog3164: header mismatch")]
  | some (pri, timestamp, host, rest) =>
    priMembers (decimalValue digits pri) ++
      [("timestamp", textValue timestamp), ("host", textValue host),
        ("hostname", textValue host), ("_raw", textValue line)] ++
      match matchTag digits word rest with
      | some (tag, pid, msg) =>
        [("tag", textValue tag), ("app", textValue tag)] ++
          (if pid = [] then [] else [("procid", textValue pid)]) ++
          [("message", textValue (strip msg))]
      | none => [("message", textValue (strip rest))]

def lineRecords (parseLine : Text → Obj) (empty : Text) (payload : Payload) : List Obj :=
  let text := payload.toText
  let out := ((splitLines text).filter (strip · ≠ [])).map parseLine
  if out = [] then [errorMembers (strip text) empty] else out

def parseSyslogRfc5424 (payload : Payload) : List Obj :=
  lineRecords (parse5424Line digits word) "syslog5424: empty".toList payload

def parseSyslogRfc3164 (payload : Payload) : List Obj :=
  lineRecords (parse3164Line digits word) "syslog3164: empty".toList payload

end Lines

end AgenticKibana.Receivers
