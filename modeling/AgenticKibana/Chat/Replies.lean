import AgenticKibana.Library.JsonText
import AgenticKibana.Library.Newlines
import AgenticKibana.Library.TextLines

/-!
# The replies of a model

A reply is one JSON object that asks for tools, or a header, the separator line and the answer.
The parser also takes what models write instead: a fence around the object, several objects, a
header behind the answer, the older shapes, or plain text.
-/

namespace AgenticKibana.Chat

open AgenticKibana.Library
open AgenticKibana.Library.TextLines (isSpace strip)
open AgenticKibana.Library.Newlines (normalise)

abbrev Text := List Char

abbrev Obj := List (String × Json)

def get? (obj : Obj) (key : String) : Option Json := Dict.lookup key obj

/-- `str(obj.get(key) or "")`. -/
def textOf (obj : Obj) (key : String) : Text :=
  (Json.pyStr (((get? obj key).getD .null).orElse (.str ""))).toList

/-- `text.lower()`; beyond ASCII no letter has one of the letters that are asked for as its lower
case. -/
def lower (text : Text) : Text := text.map Char.toLower

def rstrip (text : Text) : Text := (text.reverse.dropWhile isSpace).reverse

def startsWith (text opening : Text) : Bool := opening.isPrefixOf text

def endsWith (text ending : Text) : Bool := ending.isSuffixOf text

def isBlank (c : Char) : Bool := c == ' ' || c == '\t'

def afterBlank (opening : Text) (text : Text) : Option Text :=
  let text := text.dropWhile isBlank
  if startsWith text opening then some (text.drop opening.length) else none

def dashes : Text := ['-', '-', '-']

def separatorWord : Text := ['A', 'N', 'S', 'W', 'E', 'R']

/-- `ANSWER_SEPARATOR_RE` on a whole line. -/
def isSeparator (line : Text) : Bool :=
  match (afterBlank dashes line).bind fun rest =>
      (afterBlank separatorWord rest).bind (afterBlank dashes) with
  | some rest => rest.all isBlank
  | none => false

theorem isSeparator_nil : isSeparator [] = false := rfl

/-- `ANSWER_SEPARATOR_RE.search(text)`: what is before the match, and what is behind it. -/
def searchSeparator (text : Text) : Option (Text × Text) := Newlines.search isSeparator true text

/-! ### Objects in a text -/

def fence : Text := ['`', '`', '`']

/-- `[A-Za-z0-9_-]` -/
def isFenceWord (c : Char) : Bool := c.isAlphanum || c == '_' || c == '-'

def dropNewline (text : Text) : Text := if text.head? = some '\n' then text.tail else text

def afterFenceWord (text : Text) : Text := (text.dropWhile isFenceWord).dropWhile isBlank

def cutAt (matchesHere : Text → Bool) : Text → Text
  | [] => []
  | c :: cs => if matchesHere (c :: cs) then [] else c :: cutAt matchesHere cs

/-- `\n?[ \t]*` and a fence; what follows it. -/
def afterFence (text : Text) : Option Text := afterBlank fence (dropNewline text)

/-- `_FENCE_CLOSE_RE` -/
def closesFence (text : Text) : Bool := (afterFence text).any fun rest => rest.all isSpace

def opensFence (text : Text) : Bool := (afterFence text).any fun rest => afterFenceWord rest = []

def stripCodeFence (text : Text) : Text :=
  let stripped := strip text
  if startsWith stripped fence then
    strip (cutAt closesFence (dropNewline (afterFenceWord (stripped.drop fence.length))))
  else stripped

/-- `JSONDecoder().raw_decode(text)` where a value begins: the value, and what is behind it.  No
string of an object is longer than its literal. -/
structure Decoder where
  rawDecode : Text → Option (Json × Text)
  shorter : ∀ {text ms rest k s}, rawDecode text = some (.obj ms, rest) → (k, .str s) ∈ ms →
    s.toList.length + rest.length < text.length

section Parser

variable (d : Decoder)

/-- `json.loads(text)`; nothing where it raises. -/
def Decoder.loads (text : Text) : Option Json :=
  if text.head? = some '\uFEFF' then none
  else match d.rawDecode (Json.skipSpace text) with
    | some (value, rest) => if Json.skipSpace rest = [] then some value else none
    | none => none

def asObj : Json → Option Obj
  | .obj ms => some ms
  | _ => none

def loadObject (text : Text) : Option Obj :=
  let candidate := stripCodeFence text
  if candidate = [] then none
  else match d.loads candidate with
    | some value => asObj value
    | none =>
      match candidate.dropWhile fun c => c != '{' with
      | [] => none
      | start => (d.rawDecode start).bind fun r => asObj r.1

def actionMark : Text := ['"', 'a', 'c', 't', 'i', 'o', 'n', '"']

def isJsonLike (text : Text) : Bool :=
  let stripped := if startsWith (strip text) fence then stripCodeFence text else strip text
  stripped.head? == some '{' || text.tails.any fun rest => startsWith rest actionMark

/-- `_HEADER_KEYS & set(obj)` -/
def hasHeaderKey (obj : Obj) : Bool :=
  ["blocks", "citations", "action"].any fun key => (get? obj key).isSome

/-- `body.rfind("{", 0, position)` -/
def rfindBrace (body : Text) : Nat → Option Nat
  | 0 => none
  | n + 1 => if body[n]? = some '{' then some n else rfindBrace body n

/-- The attempts of `_trailing_object`, from the last brace before a position. -/
def trailingBefore (body : Text) : Nat → Nat → Option (Text × Obj)
  | 0, _ => none
  | attempts + 1, position =>
    match rfindBrace body position with
    | none => none
    | some position =>
      match d.rawDecode (body.drop position) with
      | none => trailingBefore body attempts position
      | some (value, rest) =>
        if strip rest = [] then
          match asObj value with
          | some obj =>
            if hasHeaderKey obj then
              some (rstrip (cutAt opensFence (rstrip (body.take position))), obj)
            else none
          | none => none
        else trailingBefore body attempts position

def trailingAttempts : Nat := 64

/-- `_trailing_object`: what is before the object, and the object. -/
def trailingObject (text : Text) : Option (Text × Obj) :=
  let body := rstrip text
  let body := if endsWith body fence then rstrip (body.take (body.length - fence.length)) else body
  if body.getLast? = some '}' then trailingBefore d body trailingAttempts body.length else none

/-- The loop of `_object_sequence`, with room for so many objects: the objects, and what is left. -/
def objectsFrom : Nat → Text → Option (List Obj × Text)
  | 0, text => some ([], text)
  | room + 1, text =>
    match text.dropWhile fun c => c == ' ' || c == '\t' || c == '\n' with
    | [] => some ([], [])
    | start =>
      match d.rawDecode start with
      | some (.obj obj, rest) => (objectsFrom room rest).map fun r => (obj :: r.1, r.2)
      | _ => none

def objectSequence (text : Text) : Option (List Obj) :=
  match objectsFrom d (trailingAttempts + 1) text with
  | some (objects, rest) => if 2 ≤ objects.length ∧ rest = [] then some objects else none
  | none => none

/-! ### Tool calls -/

def escapedLength (c : Char) : Nat :=
  if c = '"' ∨ c = '\\' ∨ c = '\n' ∨ c = '\r' ∨ c = '\t' ∨ c.toNat = 8 ∨ c.toNat = 12 then 2
  else if 32 ≤ c.toNat ∧ c.toNat ≤ 126 then 1
  else if c.toNat < 0x10000 then 6
  else 12

def quotedLength (s : String) : Nat := 2 + (s.toList.map escapedLength).sum

mutual
/-- `len(json.dumps(value))`. -/
def dumpsLength : Json → Nat
  | .null => 4
  | .bool true => 4
  | .bool false => 5
  | .int n => (Json.intText n).length
  | .float x => x.text.length
  | .str s => quotedLength s
  | .arr xs => max 2 (itemsLength xs)
  | .obj ms => max 2 (membersLength ms)
termination_by structural j => j

def itemsLength : List Json → Nat
  | [] => 0
  | x :: xs => dumpsLength x + 2 + itemsLength xs
termination_by structural j => j

def membersLength : List (String × Json) → Nat
  | [] => 0
  | m :: ms => memberLength m + 2 + membersLength ms
termination_by structural j => j

def memberLength : String × Json → Nat
  | (k, v) => quotedLength k + 2 + dumpsLength v
termination_by structural j => j
end

def maxToolInputChars : Nat := 4000

def inputTooLarge (value : Json) : Bool := maxToolInputChars < dumpsLength value

structure ToolCallRequest where
  tool : Text
  input : Obj
  refusal : Option String := none

def boundedInput : Json → Obj
  | .obj ms => if inputTooLarge (.obj ms) then [] else ms
  | _ => []

def callRequest (name : Text) (value : Json) : ToolCallRequest :=
  if (asObj value).isSome && inputTooLarge value then
    ⟨name, [], some "Input too large; the lookup was not run"⟩
  else ⟨name, boundedInput value, none⟩

/-- `_TOOL_NAME_RE` -/
def isToolName : Text → Bool
  | [] => false
  | c :: cs => c.isLower && decide (cs.length ≤ 63) &&
      cs.all fun c => c.isLower || c.isDigit || c == '_'

def itemCall (item : Json) : Option ToolCallRequest :=
  match asObj item with
  | none => none
  | some obj =>
    match get? obj "tool" with
    | some (.str name) =>
      let name := strip name.toList
      if isToolName name then some (callRequest name ((get? obj "input").getD .null)) else none
    | _ => none

def tool : Text := ['t', 'o', 'o', 'l']
def tools : Text := ['t', 'o', 'o', 'l', 's']
def final : Text := ['f', 'i', 'n', 'a', 'l']

/-- `_tool_calls`; no call at all where the shape is wrong. -/
def toolCalls (obj : Obj) : List ToolCallRequest :=
  let action := lower (strip (textOf obj "action"))
  let raw :=
    if action = tool then
      [Json.obj [("tool", (get? obj "tool").getD .null), ("input", (get? obj "input").getD .null)]]
    else if action = tools then
      match get? obj "calls" with
      | some (.arr items) => items
      | _ => []
    else []
  raw.filterMap itemCall

/-! ### The parser -/

inductive ReplyKind where
  | tools
  | final
  | invalid
  deriving DecidableEq

inductive Shape where
  | separator
  | json
  | trailing
  | prose
  | legacy
  | empty
  deriving DecidableEq

inductive Reason where
  | badToolCall
  | unknownAction
  | noAction
  | empty
  | multipleObjects
  | unparseable
  | jsonLike

structure ParsedReply where
  kind : ReplyKind
  calls : List ToolCallRequest := []
  header : Option Obj := none
  answer : Text := []
  shape : Shape
  legacyQuery : Option Obj := none
  reason : Option Reason := none

def ParsedReply.legacy (p : ParsedReply) : Prop := p.shape = .legacy

instance (p : ParsedReply) : Decidable p.legacy := inferInstanceAs (Decidable (_ = _))

def invalid (shape : Shape) (reason : Reason) : ParsedReply :=
  { kind := .invalid, shape := shape, reason := some reason }

def legacyReply (obj : Obj) (answer : Text) : ParsedReply :=
  match get? obj "query" with
  | some (.obj query) =>
    if ((get? obj "needs_query").getD .null).truthy then
      { kind := .tools, shape := .legacy, answer := answer, header := some obj,
        legacyQuery := some query,
        calls := [callRequest "search_logs".toList (.obj query)] }
    else { kind := .final, shape := .legacy, answer := answer, header := some obj }
  | _ => { kind := .final, shape := .legacy, answer := answer, header := some obj }

def fromObject (obj : Obj) (shape : Shape) (body : Option Text) : ParsedReply :=
  match get? obj "action" with
  | some (.str action) =>
    let verb := lower (strip action.toList)
    if verb = tool ∨ verb = tools then
      let calls := toolCalls obj
      if calls.isEmpty then invalid shape .badToolCall
      else { kind := .tools, calls := calls, shape := shape }
    else if verb = final then
      let answer := match body with
        | some body => body
        | none =>
          match get? obj "answer" with
          | some (.str answer) => answer.toList
          | _ => []
      { kind := .final, header := some obj, shape := shape, answer := answer }
    else invalid shape .unknownAction
  | _ =>
    match get? obj "answer" with
    | some (.str answer) => legacyReply obj answer.toList
    | _ =>
      match body with
      | some body =>
        if hasHeaderKey obj then
          { kind := .final, header := some obj, shape := shape, answer := body }
        else invalid shape .noAction
      | none => invalid shape .noAction

def plainBody (body : Text) : ParsedReply :=
  { kind := .final, shape := .separator, answer := body }

def headerOf (text : Text) : Option Obj := if strip text = [] then none else loadObject d text

def parseSeparated (headerText body : Text) : ParsedReply :=
  match headerOf d headerText with
  | some header =>
    let parsed := fromObject header .separator (some body)
    if parsed.kind = .tools ∧ ¬ parsed.legacy then parsed
    else if parsed.kind = .final ∧ parsed.shape = .separator then parsed
    else plainBody body
  | none =>
    match trailingObject d body with
    | some (before, obj) =>
      let parsed := fromObject obj .trailing (some before)
      if parsed.kind = .final then parsed else plainBody body
    | none => plainBody body

def parseSequence (objects : List Obj) : ParsedReply :=
  let parsed := objects.map fun obj => fromObject obj .json none
  if parsed.all fun p => decide (p.kind = .tools ∧ ¬ p.legacy) then
    { kind := .tools, calls := parsed.flatMap ParsedReply.calls, shape := .json }
  else invalid .json .multipleObjects

def parseRest (text candidate : Text) : ParsedReply :=
  let fallback :=
    if candidate.head? = some '{' then
      match loadObject d candidate with
      | some obj =>
        let parsed := fromObject obj .json none
        if parsed.kind = .tools then parsed else invalid .json .unparseable
      | none => invalid .json .unparseable
    else if isJsonLike text then invalid .prose .jsonLike
    else { kind := .final, shape := .prose, answer := strip text }
  match trailingObject d text with
  | some (before, obj) =>
    let parsed := fromObject obj .trailing (some before)
    if parsed.kind = .final ∨ parsed.kind = .tools then parsed else fallback
  | none => fallback

def parseWhole (text : Text) : ParsedReply :=
  let stripped := strip text
  if stripped = [] then invalid .empty .empty
  else
    let candidate := stripCodeFence stripped
    if candidate.head? = some '{' then
      match (d.loads candidate).bind asObj with
      | some obj => fromObject obj .json none
      | none =>
        match objectSequence d candidate with
        | some objects => parseSequence objects
        | none => parseRest d text candidate
    else parseRest d text candidate

def parseReply (text : Text) : ParsedReply :=
  let text := normalise text
  match searchSeparator text with
  | some (headerText, rest) => parseSeparated d headerText (dropNewline rest)
  | none => parseWhole d text

end Parser

end AgenticKibana.Chat
