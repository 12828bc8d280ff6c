import AgenticKibana.Library.Dict
import AgenticKibana.Library.Json
import AgenticKibana.Library.TextLines
import AgenticKibana.Library.Machine
import AgenticKibana.Library.Pages

/-!
# The messages of a conversation and their archive

A conversation keeps a copy of each of its messages; that of an answer whose whole exchange has a
document of its own can be shortened to a preview.  Past a ceiling the oldest move to pages:
whoever saved an answer reads the row, writes the pages one by one and then the row, if nobody has
archived since.  Any number of processes may do so at once, and each may stop anywhere.
-/

namespace AgenticKibana.Conversations

open AgenticKibana.Library
open AgenticKibana.Library.TextLines (isSpace)

abbrev Text := List Char

/-! ### Messages -/

inductive Role where
  | user
  | assistant
  deriving DecidableEq

abbrev Stored := Dict String Json

structure Message where
  id : Text
  role : Role
  content : Text
  createdAt : Text := []
  response : Option Stored := none

def exchangeMarker : String := "exchange_saved"

def presentationKey : String := "presentation_json"

def storedScalarKeys : List String :=
  ["query", "case_id", "cost", "idempotency_key", "effective_model", "effective_source_id",
    "effective_source_name", "truncated", "turn_id", "blocks_version"]

def isScalar : Json → Bool
  | .arr _ => false
  | .obj _ => false
  | _ => true

def Message.stored (m : Message) : Stored := m.response.getD Dict.empty

def exchangeBacked (m : Message) : Bool :=
  m.role = .assistant &&
    match m.stored.get? exchangeMarker with
    | some (.bool true) => true
    | _ => false

def isTruncated (response : Stored) : Bool := ((response.get? "truncated").getD .null).truthy

def needsHydration (m : Message) : Bool := exchangeBacked m && isTruncated m.stored

/-! ### Previews -/

def reducedPreviewChars : Nat := 280

def preview (text : Text) : Text :=
  if text.length ≤ reducedPreviewChars then text
  else ((text.take (reducedPreviewChars - 1)).reverse.dropWhile isSpace).reverse ++ ['…']

def reducedAssistant (m : Message) : Message :=
  let scalars := m.stored.filter fun key value =>
    storedScalarKeys.contains key && key != "query" && isScalar value
  { m with
    content := preview m.content
    response := some ((scalars.set exchangeMarker (.bool true)).set "truncated" (.bool true)) }

def isMinimal (m : Message) : Bool :=
  !m.stored.contains presentationKey && decide (m.content.length ≤ reducedPreviewChars)

def shortAnswer (m : Message) : Message := if isMinimal m then m else reducedAssistant m

def shortQuestion (m : Message) : Message :=
  if m.role = .user ∧ reducedPreviewChars < m.content.length then
    { m with content := preview m.content }
  else m

/-- `_archived_form`: a question is shortened if the message after it is an answer with a document
of its own. -/
def archivedForm : List Message → List Message
  | [] => []
  | m :: rest =>
    (if exchangeBacked m then shortAnswer m
      else if rest.head?.any exchangeBacked then shortQuestion m else m) :: archivedForm rest

/-- What a store takes from the encoding of a message: its size, and what is left of an answer
without a document of its own when its blocks have expired. -/
structure Encoding where
  size : Message → Nat
  downgrade : Stored → Stored

def maxConversationBytes : Nat := 256000

section Trim

variable (enc : Encoding)

/-- The loop of `_trim_messages`: so many messages may still be shortened; those that were passed
are kept in reverse. -/
def trimLoop : Nat → Int → List Message → List Message → List Message
  | 0, _, done, rest => done.reverse ++ rest
  | _, _, done, [] => done.reverse
  | room + 1, total, done, m :: rest =>
    if total ≤ maxConversationBytes then done.reverse ++ m :: rest
    else if m.role ≠ .assistant ∨ m.stored.entries = [] then trimLoop room total (m :: done) rest
    else if exchangeBacked m then
      let short := shortAnswer m
      let total := total + enc.size short - enc.size m
      match done with
      | [] => trimLoop room total [short] rest
      | prior :: done =>
        trimLoop room (total + enc.size (shortQuestion prior) - enc.size prior)
          (short :: shortQuestion prior :: done) rest
    else
      let old := { m with response := some (enc.downgrade m.stored) }
      trimLoop room (total + enc.size old - enc.size m) (old :: done) rest

/-- `_trim_messages`: the newest exchange is never shortened. -/
def trimMessages (messages : List Message) : List Message :=
  let total := (messages.map enc.size).sum + 1
  if total ≤ maxConversationBytes then messages
  else trimLoop enc (messages.length - min 2 messages.length) total [] messages

end Trim

open List

/-! ### The store -/

/-- `ARCHIVE_TRIGGER_MESSAGES` -/
def archiveTrigger : Nat := 140

/-- `INLINE_KEEP_MESSAGES` -/
def inlineKeep : Nat := 100

/-- `ARCHIVE_PAGE_MESSAGES` -/
def pageSize : Nat := 200

structure Row where
  messages : List Message
  count : Nat := 0
  oldestAt : Option Text := none

abbrev ArchivePages := Nat → Option (List Message)

/-- Where a run of `_maybe_archive` is: about to read the page that holds its count, or about to
write a page, with what is left to write; when nothing is left, the row. -/
inductive ArchiveStage where
  | load
  | write (page : Nat) (items : List Message)
  | done

structure Archiver where
  count : Nat
  ids : List Text
  moved : List Message
  oldestAt : Option Text
  stage : ArchiveStage := .load

def Archiver.reach (a : Archiver) : Nat := a.count + a.moved.length

/-- `while cut > 0 and messages[cut - 1].role != "assistant"` -/
def cutBefore (messages : List Message) : Nat → Nat
  | 0 => 0
  | cut + 1 =>
    if messages[cut]?.any fun m => m.role = .assistant then cut + 1 else cutBefore messages cut

/-- The beginning of `_maybe_archive`; nothing where the row stays as it is. -/
def archiverOf (row : Row) : Option Archiver :=
  if row.messages.length ≤ archiveTrigger then none
  else
    let cut := cutBefore row.messages (row.messages.length - inlineKeep)
    if cut = 0 then none
    else some
      { count := row.count
        ids := (row.messages.take cut).map Message.id
        moved := archivedForm (row.messages.take cut)
        oldestAt := row.oldestAt.or (row.messages.head?.map Message.createdAt) }

/-- The beginning of `_write_archive`; nothing where it raises. -/
def loadPage (pages : ArchivePages) (a : Archiver) : Option (List Message) :=
  let page := a.count / pageSize
  let offset := a.count - page * pageSize
  if offset = 0 then some a.moved
  else
    match pages page with
    | none => none
    | some existing =>
      if existing.length < offset then none else some (existing.take offset ++ a.moved)

/-- `_apply` -/
def recordArchive (row : Row) (a : Archiver) : Row :=
  let cut := a.moved.length
  if row.count ≠ a.count ∨ (row.messages.take cut).map Message.id ≠ a.ids then row
  else ⟨row.messages.drop cut, a.count + cut, a.oldestAt⟩

/-! ### The runs -/

/-- The row, the pages, the runs of `_maybe_archive`, and all messages that were appended. -/
structure ArchiveStore where
  row : Row
  pages : ArchivePages := fun _ => none
  archivers : List Archiver := []
  appended : List Message

/-- One move; a compare-and-set that is refused reads again, so one that succeeds is one move, and a
run that fails or is interrupted makes no further move. -/
inductive ArchiveMove where
  | append (question answer : Message)
  | start
  | load (run : Nat)
  | write (run : Nat)
  | record (run : Nat)

section Moves

variable (enc : Encoding)

def ArchiveStore.put (s : ArchiveStore) (run : Nat) (a : Archiver) : ArchiveStore :=
  { s with archivers := s.archivers.set run a }

def archiveStep (s : ArchiveStore) : ArchiveMove → Option ArchiveStore
  | .append question answer =>
    if question.role = .user ∧ answer.role = .assistant then
      some { s with
        row := { s.row with messages := trimMessages enc (s.row.messages ++ [question, answer]) }
        appended := s.appended ++ [question, answer] }
    else none
  | .start => (archiverOf s.row).map fun a => { s with archivers := s.archivers ++ [a] }
  | .load run =>
    s.archivers[run]?.bind fun a =>
      match a.stage with
      | .load => (loadPage s.pages a).map fun items =>
        s.put run { a with stage := .write (a.count / pageSize) items }
      | _ => none
  | .write run =>
    s.archivers[run]?.bind fun a =>
      match a.stage with
      | .write page (m :: items) => some
          { s.put run { a with stage := .write (page + 1) ((m :: items).drop pageSize) } with
            pages := Function.update s.pages page (some ((m :: items).take pageSize)) }
      | _ => none
  | .record run =>
    s.archivers[run]?.bind fun a =>
      match a.stage with
      | .write _ [] => some
          { s.put run { a with stage := .done } with row := recordArchive s.row a }
      | _ => none

def archiveMachine : Machine ArchiveStore ArchiveMove where
  start s := s.row.count = 0 ∧ s.archivers = [] ∧ (∀ page, s.pages page = none) ∧
    s.appended = s.row.messages
  step := archiveStep enc

def relies (row : Row) (page : Nat) (a : Archiver) : Option Nat :=
  match a.stage with
  | .write next _ =>
    if a.count = row.count ∧ a.count / pageSize ≤ page ∧ page < next then some a.reach else none
  | _ => none

/-- **The condition on a run**: no page is overwritten with fewer messages than the row's count
covers on it, or than another run that may still succeed has written. -/
def KeepsPages (s : ArchiveStore) : ArchiveMove → Prop
  | .write run => ∀ a page items, s.archivers[run]? = some a → a.stage = .write page items →
      min pageSize (s.row.count - page * pageSize) ≤ items.length ∧
        ∀ (other : Nat) (b : Archiver) (reach : Nat), other ≠ run → s.archivers[other]? = some b →
          relies s.row page b = some reach →
            min pageSize (reach - page * pageSize) ≤ items.length
  | _ => True

end Moves

def ArchiveStore.transcript (s : ArchiveStore) : List Message :=
  Pages.slice pageSize s.pages s.row.count 0 s.row.count ++ s.row.messages

def Message.tag (m : Message) : Text × Role := (m.id, m.role)

theorem tag_shortAnswer (m : Message) : (shortAnswer m).tag = m.tag := by
  unfold shortAnswer
  split <;> rfl

theorem tag_shortQuestion (m : Message) : (shortQuestion m).tag = m.tag := by
  unfold shortQuestion
  split <;> rfl

theorem tags_archivedForm (messages : List Message) :
    (archivedForm messages).map Message.tag = messages.map Message.tag := by
  induction messages with
  | nil => rfl
  | cons m rest ih =>
    rw [archivedForm, map_cons, map_cons, ih]
    congr 1
    split
    · exact tag_shortAnswer m
    · split
      · exact tag_shortQuestion m
      · rfl

theorem length_archivedForm (messages : List Message) :
    (archivedForm messages).length = messages.length := by
  have htags := congrArg List.length (tags_archivedForm messages)
  rw [length_map, length_map] at htags
  exact htags

theorem tags_trimLoop (enc : Encoding) (room : Nat) (total : Int) (done rest : List Message) :
    (trimLoop enc room total done rest).map Message.tag =
      (done.reverse ++ rest).map Message.tag := by
  induction room generalizing total done rest with
  | zero => rfl
  | succ room ih =>
    cases rest with
    | nil =>
      rw [trimLoop, append_nil]
      exact Nat.succ_ne_zero room
    | cons m rest =>
      rw [trimLoop]
      split
      · rfl
      split
      · rw [ih]
        simp
      split
      · cases done with
        | nil =>
          dsimp only
          rw [ih]
          simp [tag_shortAnswer]
        | cons prior done =>
          dsimp only
          rw [ih]
          simp [tag_shortAnswer, tag_shortQuestion]
      · dsimp only
        rw [ih]
        simp [Message.tag]

theorem tags_trimMessages (enc : Encoding) (messages : List Message) :
    (trimMessages enc messages).map Message.tag = messages.map Message.tag := by
  unfold trimMessages
  dsimp only
  split
  · rfl
  · exact tags_trimLoop enc _ _ [] messages

end AgenticKibana.Conversations
