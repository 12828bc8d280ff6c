import AgenticKibana.Conversations.Archive
import AgenticKibana.Library.JsonText

/-!
# Stored responses, and saving and replaying answers

A response is stored as its scalars and one text with everything else, in full in the document of
its exchange, and compacted beside the message, where it says that it is not the whole answer
unless it is decoded to the same response.  A read restores the answers whose copy says so, each
with the question before it.
-/

namespace AgenticKibana.Conversations

open AgenticKibana.Library Option

/-- What is taken from the presentation blocks: their compact form, with whether it was cut down,
and the table that a block of some id stands for. -/
structure Presentations where
  compact : Stored → Stored × Bool
  table : Json → String → Option Json

/-! ### Encoding -/

def derivedResponseKeys : List String :=
  ["answer", "message_id", "conversation_id", "conversation_title", "user_message_id"]

def tableBlockKey : String := "table_block"

def legacyQueryChars : Nat := 4000

/-- `_empty` -/
def isEmpty : Json → Bool
  | .null => true
  | .arr [] => true
  | .obj [] => true
  | _ => false

def rstrip (text : Text) : Text := (text.reverse.dropWhile TextLines.isSpace).reverse

def clipText (limit : Nat) : Json → Json
  | .str s =>
    if limit < s.length then
      .str (String.ofList (rstrip (s.toList.take (limit - 1)) ++ ['…']))
    else .str s
  | value => value

/-- `_load_presentation`; empty where there is none. -/
def loadPresentation (response : Stored) : Stored :=
  match response.get? presentationKey with
  | some (.str raw) =>
    match Json.loads raw.toList with
    | some (.obj ms) => Dict.ofList ms
    | _ => Dict.empty
  | _ => Dict.empty

def canonicalJson (d : Stored) : Text := Json.dumps (.obj d.entries)

section Codec

variable (p : Presentations)

def isStoredScalar (key : String) (value : Json) : Bool :=
  storedScalarKeys.contains key && isScalar value

def isInternal (key : String) : Bool :=
  derivedResponseKeys.contains key || key == presentationKey || key == exchangeMarker

def scalarsOf (compact : Bool) (response : Stored) : Stored :=
  (response.filter fun key value =>
    !isInternal key && isStoredScalar key value && !(value matches .null)).mapValues
      fun key value => if compact && key == "query" then clipText legacyQueryChars value else value

def presentationOf (response : Stored) : Stored :=
  let fields := response.filter fun key value =>
    !isInternal key && !isStoredScalar key value && !isEmpty value
  fields.entries.foldl (fun d e => d.set e.1 e.2) (loadPresentation response)

/-- `encode_assistant_response`, with whether the presentation was cut down. -/
def encodeAssistantResponse (response : Option Stored) (compact : Bool) : Option Stored × Bool :=
  match response with
  | none => (none, false)
  | some response =>
    let stored := scalarsOf compact response
    let presentation := presentationOf response
    let (kept, reduced) :=
      if presentation.entries = [] then (presentation, false)
      else if compact then p.compact presentation
      else (presentation.filter fun _ value => !isEmpty value, false)
    let stored :=
      if kept.entries = [] then stored
      else stored.set presentationKey (.str (String.ofList (canonicalJson kept)))
    let truncated := isTruncated stored || reduced
    (some (if truncated then stored.set "truncated" (.bool true) else stored), truncated)

/-- `decode_response` of an answer without its text. -/
def decodeFields (stored : Stored) : Stored :=
  let out := stored.filter fun key _ => key != presentationKey && key != exchangeMarker
  let presentation := loadPresentation stored
  let out := (presentation.filter fun key _ => key != tableBlockKey).entries.foldl
    (fun d e => d.setDefault e.1 e.2) out
  match out.get? "table", presentation.get? tableBlockKey with
  | some .null, some (.str block) => withTable block out
  | none, some (.str block) => withTable block out
  | _, _ => out
where
  withTable (block : String) (out : Stored) : Stored :=
    match p.table ((out.get? "blocks").getD .null) block with
    | some table => out.set "table" table
    | none => out

/-- `decode_response` of an answer. -/
def decodeResponse (stored : Option Stored) (content : Text) : Option Stored :=
  match stored with
  | none => none
  | some stored =>
    if stored.entries.all fun e => e.1 == exchangeMarker then none
    else some ((decodeFields p stored).set "answer" (.str (String.ofList content)))

/-- `_comparable` of a stored response, without its text. -/
def comparable (stored : Option Stored) : Text :=
  canonicalJson (((decodeResponse p stored []).getD Dict.empty).erase "truncated")

def inlineIsComplete (full inline : Option Stored) : Bool :=
  (full.isNone && inline.isNone) || decide (comparable p full = comparable p inline)

/-- What a client reads of a decoded response, its text and the storage flag aside; an answer
without a response reads like one without fields. -/
def responseView (decoded : Option Stored) : Text :=
  canonicalJson
    (((decoded.getD Dict.empty).set "answer" (.str (String.ofList []))).erase "truncated")

/-! ### Reading the same response -/

def SameFields (d e : Stored) : Prop := ∀ key, key ≠ "truncated" → d.get? key = e.get? key

variable {d e : Stored}

theorem canonicalJson_congr (h : ∀ key, d.get? key = e.get? key) :
    canonicalJson d = canonicalJson e :=
  Json.dumps_obj_congr (Dict.entries_perm h) d.nodup

theorem SameFields.set (h : SameFields d e) (key : String) (value : Json) :
    SameFields (d.set key value) (e.set key value) := by
  intro other hother
  rw [Dict.get?_set, Dict.get?_set, h other hother]

theorem SameFields.setDefault (h : SameFields d e) (key : String) (value : Json) :
    SameFields (d.setDefault key value) (e.setDefault key value) := by
  intro other hother
  rw [Dict.get?_setDefault, Dict.get?_setDefault]
  by_cases heq : other = key
  · rw [if_pos heq, if_pos heq, h key (heq ▸ hother)]
  · rw [if_neg heq, if_neg heq, h other hother]

theorem SameFields.canonicalJson (h : SameFields d e) :
    canonicalJson (d.erase "truncated") = canonicalJson (e.erase "truncated") := by
  apply canonicalJson_congr
  intro key
  rw [Dict.get?_erase, Dict.get?_erase]
  by_cases hkey : key = "truncated"
  · rw [if_pos hkey, if_pos hkey]
  · rw [if_neg hkey, if_neg hkey, h key hkey]

theorem SameFields.view (h : SameFields d e) : responseView (some d) = responseView (some e) :=
  (h.set _ _).canonicalJson

/-- **The markers do not matter**: what is decoded depends on the other fields only. -/
theorem decodeFields_congr {s t : Stored}
    (h : ∀ key, key ≠ "truncated" → key ≠ exchangeMarker → s.get? key = t.get? key) :
    SameFields (decodeFields p s) (decodeFields p t) := by
  have hpresentation : loadPresentation s = loadPresentation t := by
    unfold loadPresentation
    rw [h presentationKey (by decide) (by decide)]
  have hscalars : SameFields
      (s.filter fun key _ => key != presentationKey && key != exchangeMarker)
      (t.filter fun key _ => key != presentationKey && key != exchangeMarker) := by
    intro key hkey
    rw [Dict.get?_filter, Dict.get?_filter]
    by_cases hmarker : key = exchangeMarker
    · subst hmarker
      cases s.get? exchangeMarker <;> cases t.get? exchangeMarker <;> simp
    · rw [h key hkey hmarker]
  have hdefaults : ∀ (entries : List (String × Json)) {d e : Stored}, SameFields d e →
      SameFields (entries.foldl (fun d e => d.setDefault e.1 e.2) d)
        (entries.foldl (fun d e => d.setDefault e.1 e.2) e) := by
    intro entries
    induction entries with
    | nil => exact fun h => h
    | cons entry entries ih => exact fun h => ih (h.setDefault _ _)
  have hwith : ∀ {d e : Stored} (block : String), SameFields d e →
      SameFields (decodeFields.withTable p block d) (decodeFields.withTable p block e) := by
    intro d e block hde
    unfold decodeFields.withTable
    rw [hde "blocks" (by decide)]
    split
    · exact hde.set _ _
    · exact hde
  unfold decodeFields
  dsimp only
  rw [hpresentation]
  have hout := hdefaults ((loadPresentation t).filter fun key _ => key != tableBlockKey).entries
    hscalars
  revert hout
  generalize List.foldl (fun (d : Stored) (e : String × Json) => d.setDefault e.1 e.2)
    (s.filter fun key _ => key != presentationKey && key != exchangeMarker) _ = d
  generalize List.foldl (fun (d : Stored) (e : String × Json) => d.setDefault e.1 e.2)
    (t.filter fun key _ => key != presentationKey && key != exchangeMarker) _ = e
  intro hout
  rw [hout "table" (by decide)]
  split
  · exact hwith _ hout
  · exact hwith _ hout
  · exact hout

theorem responseView_decodeResponse (stored : Option Stored) (content : Text) :
    responseView (decodeResponse p stored content) =
      responseView (some (decodeFields p (stored.getD Dict.empty))) := by
  have hnone : ∀ s : Stored, (s.entries.all fun e => e.1 == exchangeMarker) = true →
      SameFields (decodeFields p Dict.empty) (decodeFields p s) := by
    intro s hs
    apply decodeFields_congr
    intro key _ hmarker
    symm
    rw [Dict.get?_empty, Dict.get?_eq_none_iff]
    intro hmem
    obtain ⟨e, he, rfl⟩ := List.mem_map.mp hmem
    exact hmarker (beq_iff_eq.mp (List.all_eq_true.mp hs e he))
  have hempty : responseView none = responseView (some (decodeFields p Dict.empty)) := rfl
  cases stored with
  | none => exact hempty
  | some s =>
    unfold decodeResponse
    dsimp only
    by_cases hs : (s.entries.all fun e => e.1 == exchangeMarker) = true
    · rw [if_pos hs, hempty]
      exact (hnone s hs).view
    · rw [if_neg hs]
      apply SameFields.canonicalJson
      intro key _
      rw [getD_some, getD_some, Dict.get?_set, Dict.get?_set, Dict.get?_set]
      by_cases hkey : key = "answer"
      · rw [if_pos hkey, if_pos hkey]
      · rw [if_neg hkey, if_neg hkey, if_neg hkey]
        rfl

variable {content : Text}

theorem responseView_congr {s t : Option Stored} {content' : Text}
    (h : ∀ key, key ≠ "truncated" → key ≠ exchangeMarker →
      (s.getD Dict.empty).get? key = (t.getD Dict.empty).get? key) :
    responseView (decodeResponse p s content) = responseView (decodeResponse p t content') := by
  rw [responseView_decodeResponse, responseView_decodeResponse]
  exact (decodeFields_congr p h).view

/-- **A copy that is found complete** reads like the whole response. -/
theorem responseView_of_inlineIsComplete {full inline : Option Stored}
    (h : inlineIsComplete p full inline = true) : responseView (decodeResponse p inline content) =
      responseView (decodeResponse p full content) := by
  have hcontent : ∀ stored : Option Stored,
      responseView (decodeResponse p stored content) = responseView (decodeResponse p stored []) :=
    fun _ => responseView_congr p fun _ _ _ => rfl
  have hview : ∀ stored : Option Stored, ∀ d, decodeResponse p stored [] = some d →
      comparable p stored = responseView (decodeResponse p stored []) ∧
        comparable p stored ≠ canonicalJson Dict.empty := by
    intro stored d hd
    have hanswer : d.get? "answer" = some (.str (String.ofList [])) := by
      unfold decodeResponse at hd
      split at hd
      · cases hd
      · split at hd
        · cases hd
        · cases hd
          exact Dict.get?_set_self _ _ _
    unfold comparable responseView
    rw [hd]
    constructor
    · apply SameFields.canonicalJson
      intro key _
      rw [getD_some, Dict.get?_set]
      by_cases hkey : key = "answer"
      · rw [if_pos hkey, hkey, hanswer]
      · rw [if_neg hkey]
    · apply Json.dumps_obj_ne_empty
      intro hnil
      have hget : (d.erase "truncated").get? "answer" = some (.str (String.ofList [])) := by
        rw [Dict.get?_erase, if_neg (by decide), hanswer]
      have hmem := Dict.get?_eq_some_iff.mp hget
      rw [getD_some] at hnil
      rw [hnil] at hmem
      cases hmem
  have hnone : ∀ stored : Option Stored, decodeResponse p stored [] = none →
      comparable p stored = canonicalJson Dict.empty := by
    intro stored hd
    unfold comparable
    rw [hd]
    rfl
  unfold inlineIsComplete at h
  rw [Bool.or_eq_true, Bool.and_eq_true, isNone_iff_eq_none, isNone_iff_eq_none,
    decide_eq_true_eq] at h
  rcases h with ⟨rfl, rfl⟩ | heq
  · rfl
  rw [hcontent, hcontent full]
  cases hfull : decodeResponse p full [] with
  | none =>
    cases hinline : decodeResponse p inline [] with
    | none => rfl
    | some d => exact absurd (heq.symm.trans (hnone full hfull)) (hview inline d hinline).2
  | some d =>
    cases hinline : decodeResponse p inline [] with
    | none => exact absurd (heq.trans (hnone inline hinline)) (hview full d hfull).2
    | some e =>
      rw [← hfull, ← hinline, ← (hview full d hfull).1, ← (hview inline e hinline).1, heq]

end Codec

/-! ### Exchanges -/

/-- What is given to `append_exchange` and `complete_exchange`, with the ids that they draw and the
stored response of the question. -/
structure Exchange where
  userMessageId : Text
  assistantMessageId : Text
  userContent : Text
  assistantContent : Text
  response : Option Stored := none
  origin : Option Stored := none
  createdAt : Text := []

structure ExchangeRecord where
  userMessageId : Text
  assistantMessageId : Text
  userContent : Text
  assistantContent : Text
  response : Option Stored

def maxUserMessageChars : Nat := 12000

def maxAssistantMessageChars : Nat := 24000

def clipMarker : Text := "\n… [truncated in saved history]".toList

/-- `_clip`, with whether something was cut off. -/
def clip (text : Text) (limit : Nat) : Text × Bool :=
  if text.length ≤ limit then (text, false)
  else (rstrip (text.take (limit - clipMarker.length)) ++ clipMarker, true)

def Exchange.tags (e : Exchange) : List (Text × Role) :=
  [(e.userMessageId, .user), (e.assistantMessageId, .assistant)]

section Saving

variable (p : Presentations)

def Exchange.record (e : Exchange) : ExchangeRecord where
  userMessageId := e.userMessageId
  assistantMessageId := e.assistantMessageId
  userContent := e.userContent
  assistantContent := e.assistantContent
  response := (encodeAssistantResponse p e.response false).1

/-- Whether the copy beside the messages is the whole exchange: nothing was cut off, and the compact
response reads like the full one. -/
def Exchange.isWhole (e : Exchange) : Bool :=
  let stored := encodeAssistantResponse p e.response true
  let full := (encodeAssistantResponse p e.response false).1
  !(clip e.userContent maxUserMessageChars).2 &&
    !(clip e.assistantContent maxAssistantMessageChars).2 && !stored.2 &&
      inlineIsComplete p full stored.1 && !isTruncated (full.getD Dict.empty)

def Exchange.inlineResponse (e : Exchange) : Stored :=
  let stored :=
    ((encodeAssistantResponse p e.response true).1.getD Dict.empty).erase "truncated"
  let stored := if e.isWhole p then stored else stored.set "truncated" (.bool true)
  stored.set exchangeMarker (.bool true)

def Exchange.userMessage (e : Exchange) : Message where
  id := e.userMessageId
  role := .user
  content := (clip e.userContent maxUserMessageChars).1
  createdAt := e.createdAt
  response := e.origin

def Exchange.assistantMessage (e : Exchange) : Message where
  id := e.assistantMessageId
  role := .assistant
  content := (clip e.assistantContent maxAssistantMessageChars).1
  createdAt := e.createdAt
  response := some (e.inlineResponse p)

end Saving

abbrev ExchangeDocs := Text → Option ExchangeRecord

/-- `_load_exchange` of a document that can be read. -/
def loadExchange (docs : ExchangeDocs) (assistantMessageId : Text) : Option ExchangeRecord :=
  (docs assistantMessageId).filter fun record =>
    record.assistantMessageId = assistantMessageId

def restoredResponse (record : ExchangeRecord) : Stored :=
  let response := (record.response.getD Dict.empty).set exchangeMarker (.bool true)
  if isTruncated response then response else response.erase "truncated"

section Restoring

variable (docs : ExchangeDocs)

def restoredFrom (m : Message) : Option ExchangeRecord :=
  if needsHydration m then loadExchange docs m.id else none

/-- A message after `_hydrate`: an answer is restored from its own document, a question from that of
the answer after it. -/
def hydrated (m : Message) (next : Option Message) : Message :=
  match restoredFrom docs m with
  | some record =>
    { m with content := record.assistantContent, response := some (restoredResponse record) }
  | none =>
    match next.bind (restoredFrom docs) with
    | some record =>
      if m.role = .user ∧ m.id = record.userMessageId then
        { m with content := record.userContent }
      else m
    | none => m

def hydrate : List Message → List Message
  | [] => []
  | m :: rest => hydrated docs m rest.head? :: hydrate rest

end Restoring

structure Conversation where
  row : Row
  pages : ArchivePages := fun _ => none
  docs : ExchangeDocs := fun _ => none
  first : List Message := []
  saved : List Exchange := []

def Conversation.tags (c : Conversation) : List (Text × Role) :=
  c.first.map Message.tag ++ c.saved.flatMap Exchange.tags

/-- A save, and a run of `_maybe_archive` that writes so many pages at most before it fails. -/
inductive SaveMove where
  | save (e : Exchange)
  | archive (writes : Nat)

/-- A whole run of `_maybe_archive`; it fails before the row is written if a page is missing or not
all of them could be written. -/
def archiveRun (c : Conversation) (writes : Nat) : Conversation :=
  match archiverOf c.row with
  | none => c
  | some a =>
    match loadPage c.pages a with
    | none => c
    | some items =>
      let c := { c with
        pages := Pages.writeFrom pageSize c.pages (a.count / pageSize) items writes }
      if writes * pageSize < items.length then c
      else { c with row := recordArchive c.row a }

section Moves

variable (enc : Encoding) (p : Presentations)

/-- `append_exchange` and `complete_exchange`: the document, then the row. -/
def saveExchange (c : Conversation) (e : Exchange) : Conversation where
  row := { c.row with
    messages := trimMessages enc (c.row.messages ++ [e.userMessage, e.assistantMessage p]) }
  pages := c.pages
  docs := Function.update c.docs e.assistantMessageId (some (e.record p))
  first := c.first
  saved := c.saved ++ [e]

def replayStep (c : Conversation) : SaveMove → Option Conversation
  | .save e =>
    let ids := c.tags.map Prod.fst
    if e.userMessageId ≠ e.assistantMessageId ∧ e.userMessageId ∉ ids ∧
        e.assistantMessageId ∉ ids then
      some (saveExchange enc p c e)
    else none
  | .archive writes => some (archiveRun c writes)

def replayMachine : Machine Conversation SaveMove where
  start c := c.row.count = 0 ∧ c.first = c.row.messages ∧ c.saved = [] ∧
    (c.first.map Message.id).Nodup
  step := replayStep enc p

/-- **The condition on a save**: a question of more than a preview does not stand before a short
answer without presentation whose copy is the whole exchange. -/
def KeepsQuestion : Conversation → SaveMove → Prop
  | _, .save e =>
    e.isWhole p = true →
      ((encodeAssistantResponse p e.response true).1.getD Dict.empty).contains
        presentationKey = false →
      e.assistantContent.length ≤ reducedPreviewChars →
        e.userContent.length ≤ reducedPreviewChars
  | _, .archive _ => True

end Moves

/-! ### Reading -/

section Reading

variable (p : Presentations) (c : Conversation)

def Conversation.total : Nat := c.row.count + c.row.messages.length

def Conversation.slice (start stop : Nat) : List Message :=
  (if start < c.row.count then
      Pages.slice pageSize c.pages c.row.count start (min stop c.row.count)
    else []) ++
    (c.row.messages.take (stop - c.row.count)).drop (start - c.row.count)

def decodedMessage (m : Message) : Message :=
  match m.role with
  | .assistant => { m with response := decodeResponse p m.response m.content }
  | .user => m

/-- `get` of the whole transcript. -/
def Conversation.get : List Message :=
  (hydrate c.docs (c.slice 0 c.total)).map (decodedMessage p)

/-- `_find_archived`, the newest page first. -/
def Conversation.findArchived (messageId : Text) : Option Nat :=
  if c.row.count = 0 then none
  else
    (List.range ((c.row.count - 1) / pageSize + 1)).reverse.findSome? fun number =>
      ((((c.pages number).getD []).take (min pageSize (c.row.count - number * pageSize))).findIdx?
        fun m => m.id = messageId).map (number * pageSize + ·)

def Conversation.position (messageId : Text) : Option Nat :=
  match c.row.messages.findIdx? fun m => m.id = messageId with
  | some position => some (c.row.count + position)
  | none => c.findArchived messageId

def maxMessagePage : Nat := 100

/-- `messages_page`: the messages before one, and how many are older; nothing where there is no such
message. -/
def Conversation.messagesPage (before : Option Text) (limit : Nat) : Option (List Message × Nat) :=
  let stop := match before with
    | none => some c.total
    | some messageId => c.position messageId
  stop.map fun stop =>
    let start := stop - max 1 (min limit maxMessagePage)
    let low := start - 1
    let restored := hydrate c.docs (c.slice low (min c.total (stop + 1)))
    (((restored.drop (start - low)).take (stop - start)).map (decodedMessage p), start)

/-- `get_exchange`: an answer and the message before it; nothing where there is no such message. -/
def Conversation.getExchange (messageId : Text) : List Message :=
  match c.position messageId with
  | none => []
  | some index =>
    let window := hydrate c.docs (c.slice (index - 1) (min c.total (index + 2)))
    match window.findIdx? fun m => m.id = messageId with
    | none => []
    | some target => (window.take (target + 1)).map (decodedMessage p)

end Reading

end AgenticKibana.Conversations
